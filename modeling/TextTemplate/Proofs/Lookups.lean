import TextTemplate.Proofs.Place.Twin
import TextTemplate.Proofs.Steady

/-!
What the passes look up. When no key that is looked up leads into a field of the whole data, the field
can have any value: the first pass leaves the same nodes, and the second makes the same text of them.
-/
namespace TextTemplate
variable {φ : Type}

/-- The key of the field that decides whether a record is shown, seen from the record. -/
def flagKey : Key := .ofPath displayKey true

namespace Treeless

open Place

/-- Lookups of the first pass. -/
inductive StageLooks (env : Env φ) (data : Value φ) :
    Place φ → Bool → List String → List Node → Place φ → Key → Prop where
  | tag {place : Place φ} {inScope : Bool} {waiting : List String} {nodes : List Node} {t : Tag}
      (mem : .tag t ∈ nodes) (ready : mustWait t.binding inScope waiting = false) :
      StageLooks env data place inScope waiting nodes place t.key
  | head {place : Place φ} {inScope : Bool} {waiting : List String} {nodes body : List Node}
      {s : Section} (mem : .block s body ∈ nodes)
      (ready : mustWait s.binding inScope waiting = false) :
      StageLooks env data place inScope waiting nodes place s.key
  | flag {place p : Place φ} {inScope : Bool} {waiting : List String} {nodes body : List Node}
      {s : Section} (mem : .block s body ∈ nodes)
      (ready : mustWait s.binding inScope waiting = false)
      (found : findPlace env.host (env.policy s.raw) place [] s.key = .ok (some p)) :
      StageLooks env data place inScope waiting nodes p flagKey
  | flat {place p q : Place φ} {inScope b : Bool} {waiting : List String} {nodes body : List Node}
      {s : Section} {key : Key} (mem : .block s body ∈ nodes)
      (flattened : fate env data place inScope waiting s = .ok (.flat p b))
      (looks : StageLooks env data p b waiting body q key) :
      StageLooks env data place inScope waiting nodes q key
  | copied {place q : Place φ} {inScope b : Bool} {waiting : List String} {nodes body : List Node}
      {s : Section} {path : String} {key : Key} (mem : .block s body ∈ nodes)
      (copied : fate env data place inScope waiting s = .ok (.copied b path))
      (looks : StageLooks env data place b (path :: waiting) body q key) :
      StageLooks env data place inScope waiting nodes q key

/-- Lookups of the second pass. -/
inductive LevelLooks (env : Env φ) (data : Value φ) :
    Place φ → List (Place φ) → List Node → Place φ → List (Place φ) → Key → Prop where
  | tag {place : Place φ} {overlays : List (Place φ)} {nodes : List Node} {t : Tag}
      (mem : .tag t ∈ nodes) : LevelLooks env data place overlays nodes place overlays t.key
  | head {place : Place φ} {overlays : List (Place φ)} {nodes body : List Node} {s : Section}
      (mem : .block s body ∈ nodes) : LevelLooks env data place overlays nodes place overlays s.key
  | flag {place p : Place φ} {overlays : List (Place φ)} {nodes body : List Node} {s : Section}
      (mem : .block s body ∈ nodes)
      (found : findPlace env.host (env.policy s.raw) place overlays s.key = .ok (some p)) :
      LevelLooks env data place overlays nodes p [] flagKey
  | inside {place p q : Place φ} {overlays os xs : List (Place φ)} {nodes body : List Node}
      {s : Section} {key : Key} (mem : .block s body ∈ nodes)
      (enters : Enters env data s place overlays p os)
      (looks : LevelLooks env data p os body q xs key) :
      LevelLooks env data place overlays nodes q xs key

theorem StageLooks.mono {env : Env φ} {data : Value φ} {place q : Place φ} {inScope : Bool}
    {waiting : List String} {nodes more : List Node} {key : Key}
    (h : StageLooks env data place inScope waiting nodes q key) (hm : nodes ⊆ more) :
    StageLooks env data place inScope waiting more q key := by
  cases h with
  | tag mem ready => exact .tag (hm mem) ready
  | head mem ready => exact .head (hm mem) ready
  | flag mem ready found => exact .flag (hm mem) ready found
  | flat mem flattened looks => exact .flat (hm mem) flattened looks
  | copied mem copied looks => exact .copied (hm mem) copied looks

theorem LevelLooks.mono {env : Env φ} {data : Value φ} {place q : Place φ}
    {overlays os : List (Place φ)} {nodes more : List Node} {key : Key}
    (h : LevelLooks env data place overlays nodes q os key) (hm : nodes ⊆ more) :
    LevelLooks env data place overlays more q os key := by
  cases h with
  | tag mem => exact .tag (hm mem)
  | head mem => exact .head (hm mem)
  | flag mem found => exact .flag (hm mem) found
  | inside mem enters looks => exact .inside (hm mem) enters looks

section Kept

variable {env : Env φ} {data : Value φ} {inc : Inclusion → Place φ → Except TemplateError String}

theorem resolve_plain_found {b : Binding} (hl : b.links = []) {place : Place φ}
    {overlays : List (Place φ)} {r : Resolution φ}
    (hr : resolve env data b place overlays = .ok (some r)) :
    ∃ q v, findPlace env.host (env.policy b.raw) place overlays b.key = .ok (some q) ∧
      r = .plain q v := by
  rw [resolve_plain hl] at hr
  obtain ⟨found, hf, hr⟩ := bind_eq_ok_iff.1 hr
  cases found with
  | none => cases hr
  | some q =>
    obtain ⟨v, -, hr⟩ := bind_eq_ok_iff.1 hr
    cases hr
    exact ⟨q, v, hf, rfl⟩

/-- A section without links that is flattened or copied is over what its key leads to. -/
theorem fate_inv {place : Place φ} {inScope : Bool} {waiting : List String} {head : Section}
    (hs : head.Plain) {f : Fate φ} (hf : fate env data place inScope waiting head = .ok f) :
    f = .whole ∨ f = .hidden ∨ f = .flat place inScope ∨
      mustWait head.binding inScope waiting = false ∧ ∃ q,
        findPlace env.host (env.policy head.raw) place [] head.key = .ok (some q) ∧
          (f = .flat q true ∨ f = .copied false q.path) := by
  cases hw : mustWait head.binding inScope waiting with
  | true =>
    rw [fate, hw] at hf
    cases hf
    exact .inl rfl
  | false =>
    rw [fate, hw] at hf
    simp only [Bool.false_eq_true, if_false] at hf
    obtain ⟨found, hr, hf⟩ := bind_eq_ok_iff.1 hf
    cases found with
    | none =>
      dsimp only at hf
      split at hf
      · obtain ⟨-, -, hf⟩ := bind_eq_ok_iff.1 hf
        cases hf
        split
        · exact .inr (.inl rfl)
        · exact .inr (.inr (.inl rfl))
      · cases hf
        exact .inl rfl
    | some r =>
      obtain ⟨q, v, hfind, rfl⟩ := resolve_plain_found (b := head.binding) hs.links hr
      simp only [hs.passes, Resolution.plain_inner, Bool.false_eq_true, if_false] at hf
      refine (?_ : _ ∨ _ ∨ _ ∨ (f = .flat q true ∨ f = .copied false q.path)).imp_right
        fun h => h.imp_right fun h => h.imp_right fun h => ⟨rfl, q, hfind, h⟩
      simp only [Resolution.plain, Option.getD_some] at hf
      cases ha : v.isArray with
      | true =>
        cases hi : head.inclusive with
        | true =>
          by_cases hn : v.size = 0
          · simp only [ha, hi, hn, if_true, Bool.not_true, Bool.false_eq_true, if_false] at hf
            cases hf
            exact .inr (.inl rfl)
          · simp only [ha, hi, hn, if_true, Bool.not_true, Bool.false_eq_true, if_false] at hf
            cases hf
            exact .inr (.inr (.inr (.inr rfl)))
        | false =>
          by_cases hn : v.size = 0
          · simp only [ha, hi, hn, if_true, Bool.not_false] at hf
            cases hf
            exact .inr (.inr (.inl rfl))
          · simp only [ha, hi, hn, if_true, if_false, Bool.not_false] at hf
            cases hf
            exact .inr (.inl rfl)
      | false =>
        simp only [ha, Bool.false_eq_true, if_false] at hf
        obtain ⟨shown, -, hf⟩ := bind_eq_ok_iff.1 hf
        cases hf
        cases shown with
        | true => exact .inr (.inr (.inr (.inl rfl)))
        | false => exact .inr (.inl rfl)

mutual

/-- The nodes the first pass leaves are those it began with, with the heads of copies moved. -/
theorem stageNode_every {P : Place φ → Bool → List String → Prop} {tags : Tag → Prop}
    {heads heads' : Section → Prop} (hs : ∀ s, heads s → heads' s)
    (hflat : ∀ {p q b b' ws s}, P p b ws → heads s → fate env data p b ws s = .ok (.flat q b') →
      P q b' ws)
    (hcopied : ∀ {p b b' ws s path}, P p b ws → heads s →
      fate env data p b ws s = .ok (.copied b' path) → P p b' (path :: ws) ∧
        heads' (s.anchored p.path)) : (node : Node) → ∀ {p : Place φ} {b : Bool} {ws : List String},
    P p b ws → node.Every tags (fun _ => False) heads → ∀ staged,
    stageNode env data inc p b ws node = .ok staged →
      Node.EveryOf tags (fun _ => False) heads' staged
  | .text text, _, _, _, _, _, staged, hst => by
    rw [stageNode] at hst
    cases hst
    exact ⟨trivial, trivial⟩
  | .inclusion _, _, _, _, _, hn, _, _ => hn.elim
  | .tag tag, p, b, ws, _, hn, staged, hst => by
    have hkept : Node.EveryOf tags (fun _ => False) heads' [.tag tag] := ⟨hn, trivial⟩
    rw [stageNode] at hst
    split at hst
    · cases hst
      exact hkept
    · obtain ⟨found, -, hst⟩ := bind_eq_ok_iff.1 hst
      cases found with
      | none =>
        dsimp only at hst
        split at hst
        · obtain ⟨-, -, hst⟩ := bind_eq_ok_iff.1 hst
          cases hst
          trivial
        · cases hst
          exact hkept
      | some r =>
        cases hst
        exact ⟨trivial, trivial⟩
  | .block head body, p, b, ws, hp, hn, staged, hst => by
    rw [stageNode_block] at hst
    obtain ⟨f, hf, hst⟩ := bind_eq_ok_iff.1 hst
    cases f with
    | whole =>
      cases hst
      exact ⟨⟨hs head hn.1, hn.2.imp (fun _ h => h) (fun _ h => h) hs body⟩, trivial⟩
    | hidden =>
      cases hst
      trivial
    | flat q b' => exact stageNodes_every hs hflat hcopied body (hflat hp hn.1 hf) hn.2 staged hst
    | copied b' path =>
      obtain ⟨hp', hhead⟩ := hcopied hp hn.1 hf
      obtain ⟨inner, hb, hst⟩ := bind_eq_ok_iff.1 hst
      cases hst
      exact ⟨⟨hhead, stageNodes_every hs hflat hcopied body hp' hn.2 inner hb⟩, trivial⟩

theorem stageNodes_every {P : Place φ → Bool → List String → Prop} {tags : Tag → Prop}
    {heads heads' : Section → Prop} (hs : ∀ s, heads s → heads' s)
    (hflat : ∀ {p q b b' ws s}, P p b ws → heads s → fate env data p b ws s = .ok (.flat q b') →
      P q b' ws)
    (hcopied : ∀ {p b b' ws s path}, P p b ws → heads s →
      fate env data p b ws s = .ok (.copied b' path) → P p b' (path :: ws) ∧
        heads' (s.anchored p.path)) : (nodes : List Node) → ∀ {p : Place φ} {b : Bool}
    {ws : List String}, P p b ws → Node.EveryOf tags (fun _ => False) heads nodes → ∀ staged,
    stageNodes env data inc p b ws nodes = .ok staged →
      Node.EveryOf tags (fun _ => False) heads' staged
  | [], _, _, _, _, _, staged, hst => by
    rw [stageNodes] at hst
    cases hst
    trivial
  | node :: nodes, p, b, ws, hp, hn, staged, hst => by
    rw [stageNodes] at hst
    obtain ⟨x, ha, hst⟩ := bind_eq_ok_iff.1 hst
    obtain ⟨y, hb, hst⟩ := bind_eq_ok_iff.1 hst
    cases hst
    exact Node.everyOf_append.2 ⟨stageNode_every hs hflat hcopied node hp hn.1 x ha,
      stageNodes_every hs hflat hcopied nodes hp hn.2 y hb⟩

end

theorem stageNodes_plain {p : Place φ} {b : Bool} {ws : List String} {nodes staged : List Node}
    (hn : Node.AllPlain nodes) (hst : stageNodes env data inc p b ws nodes = .ok staged) :
    Node.AllPlain staged :=
  stageNodes_every (P := fun _ _ _ => True) (fun _ hs => hs) (fun _ _ _ => trivial)
    (fun {p _ _ _ _ _} _ hs _ => ⟨trivial, hs.anchored p.path⟩) nodes trivial hn staged hst

end Kept

variable {k : String} {d d' : Value φ} {env : Env φ} {p p' : Place φ} {os os' : List (Place φ)}

private theorem tagText_twin (hR : Roots k d d') (h : Twin d d' p p') {t : Tag}
    (hl : t.links = []) :
    tagText env t p'.bound = tagText env t p.bound := by
  rcases h.bound_or with ⟨hb, -⟩ | ⟨rfl, rfl⟩
  · rw [hb]
  · obtain ⟨⟨_, rfl⟩, ⟨_, rfl⟩, -, -⟩ := hR
    simp [tagText, hl, valueText, Place.bound, Place.top, Value.plain]

private theorem display_twin (hR : Roots k d d') (h : Twin d d' p p') (hs : Spares d k p [] flagKey)
    (inclusive : Bool) (raw : String) : ∃ shown, display env d inclusive p.bound raw = .ok shown ∧
      display env d' inclusive p'.bound raw = .ok shown := by
  rcases h.bound_or with ⟨hb, hd⟩ | ⟨rfl, rfl⟩
  · rw [hb]
    exact ⟨_, display_clean hd inclusive raw, display_clean hd inclusive raw⟩
  · have hspares : ∀ v, d.get? displayKey = some v → displayKey ≠ k ∧ v.isData = true :=
      fun v hv => hs rfl displayKey v [] (by
        have : ScopeTree.isSelfKey ("" ++ displayKey) = false := by decide
        have hsplit : splitPath displayKey = [displayKey] :=
          splitPath_of_dotless (by decide) (by decide)
        simp only [flagKey, Key.ofPath, hsplit, Value.firstField, this]
        simp [hv])
    have hrecord : ∀ fields : List (String × Value φ),
        (Value.record fields).isTruthy env.settings.evalZeroAsTrue = true := fun _ => rfl
    obtain ⟨⟨fields, hfields⟩, ⟨fields', hfields'⟩, hk, hother⟩ := hR
    change ∃ shown, display env d inclusive d raw = _ ∧ display env d' inclusive d' raw = _
    simp only [display]
    cases hflag : d.get? displayKey with
    | none =>
      have hne : displayKey ≠ k := by
        rintro rfl
        rw [hflag] at hk
        cases hk
      rw [hother _ hne, hflag]
      refine ⟨true == inclusive, ?_, ?_⟩
      · rw [hfields]; rfl
      · rw [hfields']; rfl
    | some flag =>
      obtain ⟨hne, hdata⟩ := hspares flag hflag
      rw [hother _ hne, hflag]
      cases flag with
      | function f => cases hdata
      | _ => exact ⟨_, rfl, rfl⟩

theorem resolve_twin (hR : Roots k d d') {b : Binding} (hl : b.links = []) (h : Twin d d' p p')
    (ho : List.Forall₂ (Twin d d') os os') (hs : Spares d k p os b.key) :
    (resolve env d b p os = .ok none ∧ resolve env d' b p' os' = .ok none) ∨
      ∃ q q', Twin d d' q q' ∧
        findPlace env.host (env.policy b.raw) p os b.key = .ok (some q) ∧
        resolve env d b p os = .ok (some (.plain q q.bound)) ∧
        resolve env d' b p' os' = .ok (some (.plain q' q'.bound)) := by
  obtain ⟨r, r', hr, hr', hrel⟩ := findPlace_twin env.host (env.policy b.raw) hR h ho hs
  rw [resolve_plain hl, resolve_plain hl, hr, hr']
  cases hrel with
  | none => exact .inl ⟨rfl, rfl⟩
  | @some q q' hq =>
    obtain ⟨hread, hread'⟩ := hq.read env.host (env.policy b.raw) hR
    exact .inr ⟨q, q', hq, rfl, by simp only [bind, Except.bind, hread],
      by simp only [bind, Except.bind, hread']⟩

/-- What becomes of a section over either root. -/
inductive FateTwin (d d' : Value φ) : Fate φ → Fate φ → Prop where
  | whole : FateTwin d d' .whole .whole
  | hidden : FateTwin d d' .hidden .hidden
  | flat {p p' : Place φ} (h : Twin d d' p p') (inScope : Bool) :
    FateTwin d d' (.flat p inScope) (.flat p' inScope)
  | copied (inScope : Bool) (path : String) :
    FateTwin d d' (.copied inScope path) (.copied inScope path)

private theorem fate_twin (hoff : env.settings.errorOnMissingTags = false) (hR : Roots k d d')
    {head : Section} (hs : head.Plain) (h : Twin d d' p p') {inScope : Bool} {waiting : List String}
    (hkey : mustWait head.binding inScope waiting = false → Spares d k p [] head.key)
    (hflag : mustWait head.binding inScope waiting = false → ∀ q,
      findPlace env.host (env.policy head.raw) p [] head.key = .ok (some q) →
        Spares d k q [] flagKey) :
    ∃ f f', fate env d p inScope waiting head = .ok f ∧
      fate env d' p' inScope waiting head = .ok f' ∧ FateTwin d d' f f' := by
  cases hw : mustWait head.binding inScope waiting with
  | true => exact ⟨.whole, .whole, by rw [fate, hw]; rfl, by rw [fate, hw]; rfl, .whole⟩
  | false =>
    rcases resolve_twin hR (b := head.binding) hs.links h .nil (hkey hw) with
      ⟨hr, hr'⟩ | ⟨q, q', hq, hf, hr, hr'⟩
    · rw [fate, fate, hw, hr, hr']
      simp only [bind, Except.bind, missing_off hoff, Bool.false_eq_true, if_false]
      cases head.key.inContext && inScope with
      | false => exact ⟨.whole, .whole, rfl, rfl, .whole⟩
      | true =>
        cases head.inclusive with
        | true => exact ⟨.hidden, .hidden, rfl, rfl, .hidden⟩
        | false => exact ⟨_, _, rfl, rfl, .flat h inScope⟩
    · obtain ⟨shown, hd, hd'⟩ := display_twin hR hq (hflag hw q hf) head.inclusive head.raw
      obtain ⟨harray, hsize⟩ := hq.shape hR
      refine ⟨_, _, fate_plain hs.passes hw hr hd, fate_plain hs.passes hw hr' hd', ?_⟩
      rw [harray, hsize]
      cases q.bound.isArray with
      | true =>
        cases head.inclusive with
        | true =>
          by_cases hn : q.bound.size = 0
          · simp only [hn, if_true]
            exact .hidden
          · simp only [hn, if_true, if_false, hq.path]
            exact .copied false q.path
        | false =>
          by_cases hn : q.bound.size = 0
          · simp only [hn, if_true, Bool.false_eq_true, if_false]
            exact .flat h inScope
          · simp only [hn, if_true, Bool.false_eq_true, if_false]
            exact .hidden
      | false =>
        cases shown with
        | true => exact .flat hq true
        | false => exact .hidden

mutual

/-- **The first pass leaves the same nodes** over either root. -/
private theorem stageNode_twin (inc inc' : Inclusion → Place φ → Except TemplateError String)
    (hoff : env.settings.errorOnMissingTags = false) (hR : Roots k d d') : (node : Node) →
    ∀ {p p' : Place φ} (inScope : Bool) (waiting : List String), Node.Plain node →
    Twin d d' p p' →
    (∀ q key, StageLooks env d p inScope waiting [node] q key → Spares d k q [] key) →
    ∃ staged, stageNode env d inc p inScope waiting node = .ok staged ∧
      stageNode env d' inc' p' inScope waiting node = .ok staged
  | .text text, _, _, _, _, _, _, _ => ⟨[.text text], by rw [stageNode]; rfl, by rw [stageNode]; rfl⟩
  | .inclusion _, _, _, _, _, hn, _, _ => hn.elim
  | .tag tag, p, p', inScope, waiting, hn, h, hl => by
    rw [stageNode, stageNode]
    cases hw : mustWait tag.binding inScope waiting with
    | true => exact ⟨[.tag tag], rfl, rfl⟩
    | false =>
      have hkey := hl p tag.key (.tag List.mem_cons_self hw)
      rcases resolve_twin hR (b := tag.binding) hn.links h .nil hkey with
        ⟨hr, hr'⟩ | ⟨q, q', hq, -, hr, hr'⟩
      · rw [hr, hr']
        simp only [Bool.false_eq_true, if_false, bind, Except.bind, missing_off hoff]
        cases tag.key.inContext && inScope with
        | false => exact ⟨[.tag tag], rfl, rfl⟩
        | true => exact ⟨[], rfl, rfl⟩
      · rw [hr, hr']
        refine ⟨[.text (tagText env tag q.bound)], rfl, ?_⟩
        rw [← tagText_twin hR hq hn.links]
        rfl
  | .block head body, p, p', inScope, waiting, hn, h, hl => by
    obtain ⟨f, f', hf, hf', hfate⟩ := fate_twin hoff hR hn.1 h
      (fun hw => hl p head.key (.head List.mem_cons_self hw))
      (fun hw q hq => hl q flagKey (.flag List.mem_cons_self hw hq))
    rw [stageNode_block, stageNode_block, hf, hf']
    cases hfate with
    | whole => exact ⟨_, rfl, rfl⟩
    | hidden => exact ⟨_, rfl, rfl⟩
    | flat hp b =>
      exact stageNodes_twin inc inc' hoff hR body b waiting hn.2 hp fun q key hq =>
        hl q key (.flat List.mem_cons_self hf hq)
    | copied b path =>
      obtain ⟨staged, hst, hst'⟩ := stageNodes_twin inc inc' hoff hR body b (path :: waiting) hn.2 h
        fun q key hq => hl q key (.copied List.mem_cons_self hf hq)
      refine ⟨[.block (head.anchored p.path) staged], ?_, ?_⟩
      · simp only [bind, Except.bind, hst]
        rfl
      · simp only [bind, Except.bind, hst', h.path]
        rfl

theorem stageNodes_twin (inc inc' : Inclusion → Place φ → Except TemplateError String)
    (hoff : env.settings.errorOnMissingTags = false) (hR : Roots k d d') : (nodes : List Node) →
    ∀ {p p' : Place φ} (inScope : Bool) (waiting : List String), Node.AllPlain nodes →
    Twin d d' p p' →
    (∀ q key, StageLooks env d p inScope waiting nodes q key → Spares d k q [] key) →
    ∃ staged, stageNodes env d inc p inScope waiting nodes = .ok staged ∧
      stageNodes env d' inc' p' inScope waiting nodes = .ok staged
  | [], _, _, _, _, _, _, _ => ⟨[], by rw [stageNodes]; rfl, by rw [stageNodes]; rfl⟩
  | node :: nodes, p, p', inScope, waiting, hn, h, hl => by
    obtain ⟨a, ha, ha'⟩ := stageNode_twin inc inc' hoff hR node inScope waiting
      hn.1 h fun q key hq => hl q key (hq.mono (by simp))
    obtain ⟨b, hb, hb'⟩ := stageNodes_twin inc inc' hoff hR nodes inScope waiting
      hn.2 h fun q key hq => hl q key (hq.mono fun _ hm => List.mem_cons_of_mem _ hm)
    exact ⟨a ++ b, by rw [stageNodes, ha, hb]; rfl, by rw [stageNodes, ha', hb']; rfl⟩

end

variable {inc inc' : Inclusion → Place φ → Except TemplateError String}

theorem expandItems_twin (render render' : Place φ → List (Place φ) → Except TemplateError String)
    (hR : Roots k d d') (raw raw' : String) (h : Twin d d' p p') (ha : p.bound.isArray = true)
    (indices : List Nat)
    (hbody : ∀ i ∈ indices,
      display env d true (p.item p.bound i).bound raw = .ok true → ∃ text,
        render (p.item p.bound i) (p.item p.bound i :: os) = .ok text ∧
        render' (p'.item p'.bound i) (p'.item p'.bound i :: os') = .ok text) :
    ∃ texts, expandItems env d raw render p os indices = .ok texts ∧
      expandItems env d' raw' render' p' os' indices = .ok texts := by
  induction indices with
  | nil => exact ⟨[], rfl, rfl⟩
  | cons i rest ih =>
    obtain ⟨texts, hrest, hrest'⟩ := ih fun j hj => hbody j (List.mem_cons_of_mem _ hj)
    obtain ⟨habove, hitem⟩ := h.item hR ha i
    obtain ⟨hsame, hdata⟩ := hitem.bound habove
    have hread := (h.read env.host (env.policy raw) hR).1
    have hread' := (h.read env.host (env.policy raw') hR).2
    have hiread := (hitem.read env.host (env.policy raw) hR).1
    have hiread' := (hitem.read env.host (env.policy raw') hR).2
    rw [expandItems, expandItems]
    simp only [hread, hread', hiread, hiread', hsame, display_clean hdata, bind, Except.bind]
    cases hs : shows env true (p.item p.bound i).bound with
    | false => exact ⟨texts, hrest, hrest'⟩
    | true =>
      obtain ⟨text, ht, ht'⟩ := hbody i List.mem_cons_self (by rw [display_clean hdata, hs])
      exact ⟨text :: texts, by simp only [if_true, ht, hrest]; rfl,
        by simp only [if_true, ht', hrest']; rfl⟩

private theorem expandSection_twin
    (render render' : Place φ → List (Place φ) → Except TemplateError String)
    (hoff : env.settings.errorOnMissingTags = false) (hR : Roots k d d')
    {head : Section} (hs : head.Plain) (h : Twin d d' p p') (ho : List.Forall₂ (Twin d d') os os')
    (hkey : Spares d k p os head.key)
    (hflag : ∀ q, findPlace env.host (env.policy head.raw) p os head.key = .ok (some q) →
      Spares d k q [] flagKey)
    (hbody : ∀ q xs q' xs', Enters env d head p os q xs → Twin d d' q q' →
      List.Forall₂ (Twin d d') xs xs' →
      ∃ text, render q xs = .ok text ∧ render' q' xs' = .ok text) :
    ∃ text, expandSection env d head render p os = .ok text ∧
      expandSection env d' head render' p' os' = .ok text := by
  rcases resolve_twin hR (b := head.binding) hs.links h ho hkey with
    ⟨hr, hr'⟩ | ⟨q, q', hq, hf, hr, hr'⟩
  · rw [expand_missing hr, expand_missing hr', missing_off hoff]
    cases hi : head.inclusive with
    | true => exact ⟨"", rfl, rfl⟩
    | false => exact hbody p os p' os' (.missing hr hi) h ho
  · obtain ⟨shown, hd, hd'⟩ := display_twin hR hq (hflag q hf) head.inclusive head.raw
    obtain ⟨harray, hsize⟩ := hq.shape hR
    rw [expand_plain hs.passes hr hd, expand_plain hs.passes hr' hd', harray, hsize]
    cases ha : q.bound.isArray with
    | true =>
      cases hi : head.inclusive with
      | true =>
        obtain ⟨texts, ht, ht'⟩ := expandItems_twin render render' hR head.raw head.raw hq ha
          (List.range q.bound.size) fun i hm hshown => by
            obtain ⟨-, hitem⟩ := hq.item hR ha i
            have hread := (hq.read env.host (env.policy head.raw) hR).1
            have hiread := (hitem.read env.host (env.policy head.raw) hR).1
            refine hbody _ _ _ _ ?_ hitem (.cons hitem ho)
            have := Enters.item (i := i) (w := (q.item q.bound i).bound) hr hs.passes ha hi
              (List.mem_range.1 hm) (by rw [Resolution.plain_inner]; exact hread)
              (by rw [Resolution.plain_inner]; exact hiread) hshown
            rwa [Resolution.plain_inner] at this
        exact ⟨_, by simp only [if_true, ht]; rfl, by simp only [if_true, ht']; rfl⟩
      | false =>
        by_cases hn : q.bound.size = 0
        · simp only [hn, if_true, Bool.false_eq_true, if_false]
          exact hbody p os p' os' (.empty hr hs.passes ha hi hn) h ho
        · simp only [hn, if_true, Bool.false_eq_true, if_false]
          exact ⟨"", rfl, rfl⟩
    | false =>
      cases shown with
      | true =>
        refine hbody q os q' os' ?_ hq ho
        have := Enters.plain hr hs.passes ha hd
        rw [Resolution.plain_inner] at this
        have hdynamic : (Resolution.plain q q.bound).isDynamic = false := ha
        rwa [hdynamic] at this
      | false => exact ⟨"", rfl, rfl⟩

theorem toOption_eq_some {ε α : Type} {x : Except ε α} {a : α} : x.toOption = some a ↔ x = .ok a := by
  cases x <;> simp [Except.toOption]

mutual

private theorem nodeText_twin (inc inc' : Inclusion → Place φ → Except TemplateError String)
    (hoff : env.settings.errorOnMissingTags = false) (hR : Roots k d d') : (node : Node) →
    ∀ {p p' : Place φ} {os os' : List (Place φ)}, Node.Plain node → Twin d d' p p' →
    List.Forall₂ (Twin d d') os os' →
    (∀ q xs key, LevelLooks env d p os [node] q xs key → Spares d k q xs key) →
    ∃ text, nodeText env d inc p os node = some text ∧ nodeText env d' inc' p' os' node = some text
  | .text text, _, _, _, _, _, _, _, _ => ⟨text, rfl, rfl⟩
  | .inclusion _, _, _, _, _, hn, _, _, _ => hn.elim
  | .tag tag, p, p', os, os', hn, h, ho, hl => by
    rw [nodeText, nodeText, settleNode, settleNode]
    · rcases resolve_twin hR (b := tag.binding) hn.links h ho
        (hl p os tag.key (.tag List.mem_cons_self)) with ⟨hr, hr'⟩ | ⟨q, q', hq, -, hr, hr'⟩
      · rw [hr, hr']
        simp only [bind, Except.bind, missing_off hoff]
        exact ⟨"", rfl, rfl⟩
      · rw [hr, hr']
        refine ⟨tagText env tag q.bound, rfl, ?_⟩
        rw [← tagText_twin hR hq hn.links]
        rfl
    all_goals simp
  | .block head body, p, p', os, os', hn, h, ho, hl => by
    obtain ⟨text, ht, ht'⟩ := expandSection_twin (fun p os => expandLevel env d inc p os body)
      (fun p os => expandLevel env d' inc' p os body) hoff hR hn.1 h ho
      (hl p os head.key (.head List.mem_cons_self))
      (fun q hq => hl q [] flagKey (.flag List.mem_cons_self hq))
      fun q xs q' xs' he hq hxs => by
        obtain ⟨text, ht, ht'⟩ := levelText_twin inc inc' hoff hR body hn.2 hq hxs
          fun r ys key hr => hl r ys key (.inside List.mem_cons_self he hr)
        exact ⟨text, toOption_eq_some.1 ht, toOption_eq_some.1 ht'⟩
    exact ⟨text, toOption_eq_some.2 ht, toOption_eq_some.2 ht'⟩

/-- **The second pass makes the same text** over either root. -/
theorem levelText_twin (inc inc' : Inclusion → Place φ → Except TemplateError String)
    (hoff : env.settings.errorOnMissingTags = false) (hR : Roots k d d') : (nodes : List Node) →
    ∀ {p p' : Place φ} {os os' : List (Place φ)}, Node.AllPlain nodes → Twin d d' p p' →
    List.Forall₂ (Twin d d') os os' →
    (∀ q xs key, LevelLooks env d p os nodes q xs key → Spares d k q xs key) →
    ∃ text, levelText env d inc p os nodes = some text ∧
      levelText env d' inc' p' os' nodes = some text
  | [], _, _, _, _, _, _, _, _ => ⟨"", levelText_nil, levelText_nil⟩
  | node :: nodes, p, p', os, os', hn, h, ho, hl => by
    obtain ⟨a, ha, ha'⟩ := nodeText_twin inc inc' hoff hR node hn.1 h ho
      fun q xs key hq => hl q xs key (hq.mono (by simp))
    obtain ⟨b, hb, hb'⟩ := levelText_twin inc inc' hoff hR nodes hn.2 h ho
      fun q xs key hq => hl q xs key (hq.mono fun _ hm => List.mem_cons_of_mem _ hm)
    exact ⟨a ++ b, by rw [levelText_cons, ha, hb]; rfl, by rw [levelText_cons, ha', hb']; rfl⟩

end

end Treeless

end TextTemplate
