import TextTemplate.Proofs.PassedText.Abreast
import TextTemplate.Proofs.Results

/-!
Sections whose text is passed on. The body of such a section is staged while the scope of the first
function waits, is kept in a copy of the section, and is expanded once the functions have been looked up
again. A render of the body alone knows nothing of all this, and comes to the same text.
-/
namespace TextTemplate
variable {φ : Type}

open ScopeTree

namespace PassedText

variable {env : Env φ} {data : Value φ} {extra : List ScopeId} {path : String}
  {w : ScopeTree φ × ScopeTree φ}

theorem search_anchored (host : Host φ) (policy : FailurePolicy) (key : Key) (hk : key.Formed) :
    (Place.top data).search host policy (key.anchored "") = (Place.top data).search host policy key := by
  rw [Key.anchored]
  split
  · rename_i hc
    have hsegments : (Key.ofPath (joinPath "" key.text) false).segments = key.segments := by
      rw [hk.segments]
      rfl
    rw [Place.search, Place.search, hsegments, hc.1]
    rfl
  · rfl

/-- The chain as it is found in the data. -/
structure Chain (env : Env φ) (data : Value φ) (b : Binding) (q : Place φ) (fs : List φ) : Prop where
  formed : b.Formed
  links : b.links ≠ []
  awaits : b.awaitsText = true
  key : (Place.top data).search env.host ⟨b.raw, env.settings.errorOnFuncFailure⟩ b.key = .ok (some q)
  functions : Treeless.findChain env.host ⟨b.raw, env.settings.errorOnFuncFailure⟩ (.top data) []
    b.links = .ok fs

theorem findPlace_bare (host : Host φ) (policy : FailurePolicy) (p : Place φ) (key : Key) :
    Treeless.findPlace host policy p [] key = p.search host policy key := by
  rw [Treeless.findPlace]
  cases key.inContext <;> rfl

theorem Chain.anchored {head : Section} {q : Place φ} {fs : List φ}
    (h : Chain env data head.binding q fs) : Chain env data (head.anchored "").binding q fs := by
  have hkey := h.formed head.key List.mem_cons_self
  refine ⟨fun key hk => ?_, ?_, h.awaits, ?_, ?_⟩
  · rw [Section.keys_anchored] at hk
    obtain ⟨key, hm, rfl⟩ := List.mem_map.1 hk
    exact (h.formed key hm).anchored ""
  · exact fun hnil => h.links (List.map_eq_nil_iff.1 hnil)
  · exact (search_anchored _ _ head.key hkey).trans h.key
  · have hlinks : ∀ {links : List Link}, (∀ link ∈ links, link.key.Formed) → ∀ policy,
        Treeless.findChain env.host policy (.top data) [] (links.map (·.anchored "")) =
          Treeless.findChain env.host policy (.top data) [] links := by
      intro links hl policy
      induction links with
      | nil => rfl
      | cons link links ih =>
        obtain ⟨hk, hks⟩ := List.forall_mem_cons.1 hl
        rw [List.map_cons, Treeless.findChain, Treeless.findChain, findPlace_bare, findPlace_bare,
          ih hks]
        exact congrArg (· >>= _) (search_anchored _ _ link.key hk)
    exact (hlinks (fun link hm => h.formed _ (List.mem_cons_of_mem _ (List.mem_map_of_mem hm))) _).trans
      h.functions

/-- The head resolves to the scope of its key and to the functions of the chain. -/
theorem Chain.resolve {b : Binding} {q : Place φ} {fs : List φ} (h : Chain env data b q fs)
    (hpure : env.host.IsPure) (u : ScopeTree φ) {t : ScopeTree φ}
    (htop : t.Stands root (.top data)) :
    Simulates (Kept env data u) t (Run.resolve env b root []) (.ok ()) fun t' r _ =>
      ∃ r', r = some r' ∧ t'.Stands r'.scope q ∧ r'.chain.map Prod.snd = fs := by
  have hI : Run.Searchable env.host env.settings.errorOnFuncFailure (Kept env data u) :=
    searchable hpure u
  have hscope := Run.simulates_findScope hI htop .nil (h.formed b.key List.mem_cons_self) b.raw
  rw [findPlace_bare, h.key] at hscope
  rw [Run.resolve]
  refine hscope.bindOk fun t₁ found he₁ _ hfound => ?_
  cases hfound with
  | @some id q hid =>
    have hchain := Run.simulates_findChain hI (fun hk hp => hk.faithful.function_eq hp)
      (htop.mono he₁) .nil
      (fun link hm => h.formed _ (List.mem_cons_of_mem _ (List.mem_map_of_mem hm))) b.raw
    rw [h.functions] at hchain
    dsimp only
    rw [if_neg (by simpa using h.links)]
    refine hchain.bindOk fun t₂ chain he₂ _ hfs => ?_
    rw [if_pos h.awaits]
    exact .pure fun t₃ he₃ _ => ⟨_, rfl, (hid.mono he₂).mono he₃, hfs.1⟩

/-- With the head resolved in the second of two runs that are kept beside each other, both are abreast
at their roots, and the scope of the first function is there as well. -/
theorem Chain.abreast {b : Binding} {q : Place φ} {fs : List φ} (h : Chain env data b q fs)
    (hpure : env.host.IsPure) {s s' : Session φ} (hl : Kept env data s'.tree s.tree)
    (hr : Kept env data s.tree s'.tree) :
    ∃ r s₁, Run.resolve env b root [] s' = .ok (some r) s₁ ∧ r.chain.map Prod.snd = fs ∧
      (pairing env data [r.scope] q.path).Holds (s.tree, s₁.tree) s s₁ ∧
      (pairing env data [r.scope] q.path).Same (s.tree, s₁.tree) root root := by
  obtain ⟨_, s₁, hresolve, -, hr₁, r, rfl, hscope, hfs⟩ :=
    h.resolve hpure s.tree hr.stands_top s' (.refl _) hr
  have hl₁ : Kept env data s₁.tree s.tree := hl.turn (Beside.alike hr₁).symm
  refine ⟨r, s₁, hresolve, hfs, ⟨rfl, rfl, hl₁, hr₁, fun e he => ?_⟩, hl₁.counterpart_root hr₁⟩
  rw [List.mem_singleton.1 he]
  exact ⟨hscope.1, hscope.path⟩

section Section

variable {inc : Inclusion → ScopeId → Run φ String} {head : Section} {body : List Node}
  {s s' : Session φ} {r : Resolution φ}

/-- The first pass leaves the head with its keys anchored, and what it leaves of the body while the
first function waits. -/
private theorem stageNodes_passes (hpasses : head.passesText = true)
    (hresolve : Run.resolve env head.binding root [] s = .ok (some r) s') :
    stageNodes env inc root true [] [.block head body] s =
      (stageNodes env inc root true [r.scope] body >>= fun staged =>
        pure [.block (head.anchored (s'.tree.path root)) staged]) s' := by
  have hwait : mustWait s.tree head.binding true [] = false := by simp [mustWait]
  rw [stageNodes, stageNodes, stageNode]
  simp only [bind_assoc, pure_bind, List.append_nil, Run.tree_bind, hwait, Bool.false_eq_true, if_false]
  rw [Run.bind_of_ok hresolve]
  simp only [Run.tree_bind, hpasses, if_true, bind_assoc, pure_bind]

/-- A level with a single section comes to the text of the section. -/
theorem expandLevel_block (scope : ScopeId) (overlays : List ScopeId) :
    expandLevel env inc scope overlays [.block head body] =
      expandSection env head (fun scope overlays => expandLevel env inc scope overlays body) scope
        overlays := by
  simp [expandLevel, expandNodes, expandNode, settleLevel, settleNode]

private theorem expandLevel_passes (hpasses : head.passesText = true)
    (hresolve : Run.resolve env head.binding root [] s = .ok (some r) s') :
    expandLevel env inc root [] [.block head body] s =
      (do
        let text ← expandLevel env inc root [] body
        let v ← Run.passThrough env (env.policy head.raw) ((r.chain.map Prod.snd).zip head.links)
          (.string text)
        return formatValue env.numbers none false v) s' := by
  rw [expandLevel_block, expandSection, Run.bind_of_ok hresolve]
  simp only [hpasses, if_true]

end Section

/-- What the second run of a pass comes to when the first, on a tree beside its own, comes to `x`. -/
private theorem stage_passes (hpure : env.host.IsPure) (hdata : data.isData = false) (levels : Nat)
    {head : Section} {body : List Node} {q : Place φ} {fs : List φ} (hpasses : head.passesText = true)
    (hchain : Chain env data head.binding q fs)
    (hclear : Pairing.AllClear (fun b => ∀ key ∈ b.keys, key.Formed) (Outside q.path)
      (fun _ => True) body) {s s' : Session φ} (hl : Kept env data s'.tree s.tree)
    (hr : Kept env data s.tree s'.tree) :
    match stageNodes env (Run.includeText env levels) root true [] body s with
    | .ok staged t => Pairing.AllSound (fun b => ∀ key ∈ b.keys, key.Formed) (fun _ => True) staged ∧
        ∃ t', stageNodes env (Run.includeText env levels) root true [] [.block head body] s' =
          .ok [.block (head.anchored "") staged] t' ∧
            Kept env data t'.tree t.tree ∧ Kept env data t.tree t'.tree
    | .error e _ => ∃ t', stageNodes env (Run.includeText env levels) root true []
        [.block head body] s' = .error e t' := by
  obtain ⟨r, s₁, hresolve, -, hholds, hroot⟩ := hchain.abreast hpure hl hr
  have hpath : s₁.tree.path root = "" := (Beside.stands_top hholds.right).path
  have hP : (pairing env data [r.scope] q.path).Passes env env _ _ _ _ _ [r.scope] _ :=
    passes hpure hdata levels
  have hstage := hP.stageNodes body true hclear hroot .nil _ s s₁ (Pairing.refl _ _) hholds
  rw [List.nil_append] at hstage
  rw [stageNodes_passes hpasses hresolve, hpath]
  cases hbody : stageNodes env (Run.includeText env levels) root true [] body s with
  | error e t =>
    rw [hbody] at hstage
    obtain ⟨t', hstage⟩ := hstage trivial
    exact ⟨t', Run.bind_of_error hstage _⟩
  | ok staged t =>
    rw [hbody] at hstage
    obtain ⟨_, t', w, hstage, -, ⟨hfirst, hsecond, hleft, hright, -⟩, rfl, hsound⟩ := hstage
    refine ⟨hsound, t', Run.bind_of_ok hstage _, ?_, ?_⟩ <;> rw [hfirst, hsecond]
    · exact hleft
    · exact hright

private theorem expand_passes (hpure : env.host.IsPure) (hdata : data.isData = false) (levels : Nat)
    {head : Section} {staged : List Node} {q : Place φ} {fs : List φ}
    (hpasses : head.passesText = true) (hchain : Chain env data head.binding q fs)
    (hsound : Pairing.AllSound (fun b => ∀ key ∈ b.keys, key.Formed) (fun _ => True) staged)
    {s s' : Session φ} (hl : Kept env data s'.tree s.tree) (hr : Kept env data s.tree s'.tree) :
    (expandLevel env (Run.includeText env levels) root [] [.block head staged]).ending s' =
      (expandLevel env (Run.includeText env levels) root [] staged).ending s >>= fun text =>
        (Treeless.passThrough env data (env.policy head.raw) (fs.zip head.links)
          (.string text)).map (formatValue env.numbers none false) := by
  obtain ⟨r, s₁, hresolve, rfl, hholds, hroot⟩ := hchain.abreast hpure hl hr
  have hP : (pairing env data [r.scope] q.path).Passes env env _ _ _ (Outside q.path) _ [r.scope] _ :=
    passes hpure hdata levels
  have hexpand := hP.expandLevel hsound hroot .nil _ s s₁ (Pairing.refl _ _) hholds
  have hrun : expandLevel env (Run.includeText env levels) root [] [.block head staged] s' = _ :=
    expandLevel_passes hpasses hresolve
  cases hlevel : expandLevel env (Run.includeText env levels) root [] staged s with
  | error e t =>
    rw [hlevel] at hexpand
    obtain ⟨t', hexpand⟩ := hexpand trivial
    rw [(Run.ending_of_error hlevel).1,
      (Run.ending_of_error (hrun.trans (Run.bind_of_error hexpand _))).1]
    rfl
  | ok text t =>
    rw [hlevel] at hexpand
    obtain ⟨_, t', w, hexpand, -, hholds', rfl⟩ := hexpand
    have hkept : Kept env data t.tree t'.tree := by
      rw [hholds'.first, hholds'.second]
      exact hholds'.right
    have hpassed := Run.simulates_passThrough (fun hI => hI.faithful.data_root) (env.policy head.raw)
      ((r.chain.map Prod.snd).zip head.links) (.inl hpure) (.string text) t' (.refl _) hkept
    replace hrun := hrun.trans (Run.bind_of_ok hexpand _)
    rw [(Run.ending_of_ok hlevel).1]
    cases hx : Treeless.passThrough env data (env.policy head.raw)
        ((r.chain.map Prod.snd).zip head.links) (.string text) with
    | error e =>
      rw [hx] at hpassed
      obtain ⟨t₁, hpass, -, -⟩ := hpassed
      rw [(Run.ending_of_error (hrun.trans (Run.bind_of_error hpass _))).1]
      simp [bind, Except.bind, hx, Except.map]
    | ok v =>
      rw [hx] at hpassed
      obtain ⟨_, t₁, hpass, -, -, rfl⟩ := hpassed
      rw [(Run.ending_of_ok (hrun.trans (Run.bind_of_ok hpass _))).1]
      simp [bind, Except.bind, hx, Except.map]

/-- **The text of the body is passed on.** A render of the section comes to what the functions make of
the text that a render of its body comes to. -/
private theorem outcome_passes (hpure : env.host.IsPure) (hd : data.isFunction = false)
    (hdata : data.isData = false) {head : Section} {body : List Node} {delimiters : Delimiters}
    {q : Place φ} {fs : List φ} (hpasses : head.passesText = true)
    (hchain : Chain env data head.binding q fs)
    (hclear : Pairing.AllClear (fun b => ∀ key ∈ b.keys, key.Formed) (Outside q.path)
      (fun _ => True) body) :
    Run.outcome env ⟨[.block head body], delimiters⟩ data =
      Run.outcome env ⟨body, delimiters⟩ data >>= fun text =>
        (Treeless.passThrough env data (env.policy head.raw) (fs.zip head.links)
          (.string text)).map (formatValue env.numbers none false) := by
  have hnew := beside_new env.host env.settings.errorOnFuncFailure hd
  have hstage := stage_passes hpure hdata maxPartialDepth hpasses hchain hclear
    (show Kept env data (Session.start data).tree (Session.start data).tree from hnew) hnew
  rw [Run.outcome_eq_ending, Run.outcome_eq_ending, Run.render, Run.render, Run.renderNodes,
    Run.renderNodes]
  cases hbody : stageNodes env (Run.includeText env maxPartialDepth) root true [] body
      (.start data) with
  | error e t =>
    rw [hbody] at hstage
    obtain ⟨t', hstage⟩ := hstage
    rw [(Run.ending_of_error (Run.bind_of_error hbody _)).1,
      (Run.ending_of_error (Run.bind_of_error hstage _)).1]
    rfl
  | ok staged t =>
    rw [hbody] at hstage
    obtain ⟨hsound, t', hstage, hl, hr⟩ := hstage
    have hformats : (head.anchored "").links.map (fun link => (link.format, link.escape)) =
        head.links.map fun link => (link.format, link.escape) := by
      simp [Section.anchored, Link.anchored]
    have hpasses' : (head.anchored "").passesText = true := hpasses
    have hexpand := expand_passes hpure hdata maxPartialDepth hpasses' hchain.anchored hsound hl hr
    rw [Run.ending_bind_of_ok hbody, Run.ending_bind_of_ok hstage, hexpand]
    refine congrArg _ (funext fun text => ?_)
    rw [Treeless.passThrough_formats hformats]
    rfl

/-- What finding the chain in a new tree says of the data. -/
theorem place_of_findChain {host : Host φ} (hpure : host.IsPure) {raw : String} {propagate : Bool}
    (hd : data.isFunction = false) {link : Link} {links : List Link}
    (hk : ∀ l ∈ link :: links, l.key.Formed) {chain : List (ScopeId × φ)} {s : Session φ}
    (h : Run.findChain host ⟨raw, propagate⟩ root [] (link :: links) (.start data) = .ok chain s) :
    data.isData = false ∧
      Treeless.findChain host ⟨raw, propagate⟩ (.top data) [] (link :: links) =
        .ok (chain.map Prod.snd) ∧
      ∃ q, (Place.top data).search host ⟨raw, propagate⟩ link.key = .ok (some q) ∧
        ∃ x ∈ chain.head?, s.tree.path x.1 = q.path := by
  have hnew := faithful_new host propagate hd
  have htop : (new data).Stands root (.top data) := ⟨hnew.top_lt, hnew.top_place⟩
  obtain ⟨_, hfunctions, -, hf, rfl, -, hbound⟩ :=
    (Run.follows_findChain (.inl hpure) htop .nil hk raw).of_ok (.refl _) hnew h
  -- The scope of the first link is found first, and stays where it is.
  obtain ⟨found, s₁, hscope, hrest⟩ := Run.of_bind h
  obtain ⟨_, hsearch, he₁, hf₁, hfound⟩ :=
    (Run.follows_findScope (.inl hpure) htop .nil (hk link List.mem_cons_self) raw).of_ok (.refl _)
      hnew hscope
  rw [findPlace_bare] at hsearch
  cases hfound with
  | none => cases hrest
  | @some id q hid =>
    dsimp only at hrest
    rw [Run.tree_bind] at hrest
    cases hfun : s₁.tree.function? id with
    | none =>
      rw [hfun] at hrest
      cases hrest
    | some f =>
      rw [hfun] at hrest
      obtain ⟨rest, s₂, hlinks, hlast⟩ := Run.of_bind hrest
      obtain ⟨rfl, rfl⟩ := EStateM.Result.ok.inj hlast
      obtain ⟨_, -, hext, -⟩ := (Run.follows_findChain (.inl hpure) (htop.mono he₁) .nil
        (fun l hm => hk l (List.mem_cons_of_mem _ hm)) raw).of_ok (.refl _) hf₁ hlinks
      refine ⟨Bool.eq_false_iff.2 fun hdata => ?_, hfunctions, q, hsearch, _, rfl, ?_⟩
      · cases Run.chain_eq_nil hf hdata hbound
      · rw [hext.path id hid.1, hid.path]

/-- Nodes in which no absolute key of a tag or a section lies at the path or below it. -/
abbrev NoneBelow (path : String) : List Node → Prop :=
  Node.EveryOf (fun t => Outside path t.binding) (fun _ => True) fun s => Outside path s.binding

end PassedText

namespace Host

/-- Passes a value through functions, left to right. The format and the escape of a link apply to what
its function returns. -/
def passLinks (host : Host φ) (numbers : Number.Formatter) (policy : FailurePolicy) (data : Value φ) :
    List (φ × Link) → Value φ → Except TemplateError (Value φ)
  | [], v => .ok v
  | (f, link) :: steps, v => do
    let w ← host.outcome policy f v data
    passLinks host numbers policy data steps <|
      if link.format.isSome || link.escape then
        .string (formatValue numbers link.format link.escape w)
      else w

theorem passLinks_eq (env : Env φ) (policy : FailurePolicy) (data : Value φ)
    (steps : List (φ × Link)) (v : Value φ) :
    Treeless.passThrough env data policy steps v =
      env.host.passLinks env.numbers policy data steps v := by
  induction steps generalizing v with
  | nil => rfl
  | cons step steps ih =>
    rw [Treeless.passThrough, passLinks]
    exact congrArg _ (funext fun w => ih _)

/-- Passing a value fails with a function that fails, if that is an error at all. -/
theorem passLinks_error {host : Host φ} {numbers : Number.Formatter} {policy : FailurePolicy}
    {data v : Value φ} {steps : List (φ × Link)} {e : TemplateError}
    (h : host.passLinks numbers policy data steps v = .error e) :
    policy.propagate = true ∧ ∃ message, e = .functionFailed message policy.raw := by
  induction steps generalizing v with
  | nil => cases h
  | cons step steps ih =>
    rw [passLinks] at h
    cases hf : host.outcome policy step.1 v data with
    | ok w =>
      rw [hf] at h
      exact ih h
    | error e' =>
      rw [hf] at h
      obtain rfl : e' = e := Except.error.inj h
      simp only [outcome, evaluate] at hf
      split at hf
      · cases hf
      · rename_i fault _ _
        dsimp only [FailurePolicy.settle] at hf
        split at hf
        · rename_i hp
          exact ⟨hp, fault.message, (Except.error.inj hf).symm⟩
        · cases hf

end Host

/-- The first link of a section that passes its text on is the function at its own key. -/
theorem Section.passes_ofTag {tag : Tag} {head : Section}
    (hdirective : tag.directive = some .passSection) (h : Section.ofTag tag = .ok head) :
    head.passesText = true ∧ head.links = Link.ofKey head.key :: tag.links := by
  rw [Section.ofTag] at h
  split at h
  · cases h
  · split at h
    · cases h
    · obtain rfl := Except.ok.inj h
      exact ⟨by simp [passesText, hdirective], by simp⟩

/-- **A section passes the text of its body on.** When the keys of the chain lead from the whole data to
functions, and nothing in the body is looked up at the path of the first one or below it, a render of
the section fails where a render of the body does, and otherwise comes to what the functions make of its
text, one after another, each with its own format and escape, and written plainly. Only a function that
fails adds an error, and only if failures are errors. -/
theorem Template.render_passSection {host : Host φ} (hpure : host.IsPure) {tag : Tag} {head : Section}
    (hdirective : tag.directive = some .passSection) (hhead : Section.ofTag tag = .ok head)
    {body : List Node} {delimiters : Delimiters}
    (hf : (⟨[.block head body], delimiters⟩ : Template).Formed) {data : Value φ}
    (hd : data.isFunction = false) {options : RenderOptions} {chain : List (ScopeId × φ)}
    {s : Session φ}
    (hchain : Run.findChain host ⟨head.raw, options.errorOnFuncFailure⟩ ScopeTree.root []
      head.links (.start data) = .ok chain s)
    (hclear : ∀ x ∈ chain.head?, PassedText.NoneBelow (s.tree.path x.1) body) :
    let passed := fun text => host.passLinks options.numbers ⟨head.raw, options.errorOnFuncFailure⟩
      data ((chain.map Prod.snd).zip head.links) (.string text)
    (Template.render host ⟨[.block head body], delimiters⟩ data options).result =
        ((Template.render host ⟨body, delimiters⟩ data options).result >>= fun text =>
          (passed text).map fun v => if v.isBlank then "" else v.plain) ∧
      ∀ text e, passed text = .error e →
        options.errorOnFuncFailure = true ∧ ∃ message, e = .functionFailed message head.raw := by
  intro passed
  refine ⟨?_, fun text e he => Host.passLinks_error he⟩
  obtain ⟨hpasses, hlinks⟩ := Section.passes_ofTag hdirective hhead
  obtain ⟨⟨hformed, hbody⟩, -⟩ := hf
  have hkey : head.key.Formed := hformed.keys _ List.mem_cons_self
  have hlink : (Link.ofKey head.key).key = head.key := by
    rw [Link.ofKey, Key.ofPath, ← hkey.segments]
  have hk : ∀ link ∈ head.links, link.key.Formed := fun link hm =>
    hformed.keys _ (List.mem_cons_of_mem _ (List.mem_map_of_mem hm))
  rw [hlinks] at hchain hk
  obtain ⟨hdata, hfunctions, q, hq, x, hx, hpath⟩ :=
    PassedText.place_of_findChain hpure hd hk hchain
  rw [hlink] at hq
  rw [← hlinks] at hfunctions
  replace hclear := hclear x hx
  rw [hpath] at hclear
  rw [Template.render_result, Template.render_result]
  cases options.compilePartials with
  | error e => rfl
  | ok templates =>
    let env : Env φ := ⟨host, options.toSettings, options.numbers, templates⟩
    have hall : Pairing.AllClear (fun b => ∀ key ∈ b.keys, key.Formed) (PassedText.Outside q.path)
        (fun _ => True) body :=
      (Node.EveryOf.and body hbody hclear).imp (fun _ ht => ht) (fun _ _ => trivial)
        (fun _ hs => ⟨hs.1.keys, hs.2⟩) body
    have houtcome : Run.outcome env ⟨[.block head body], delimiters⟩ data = _ :=
      PassedText.outcome_passes hpure hd hdata hpasses
        ⟨hformed.keys, hformed.passes hpasses, hpasses, hq, hfunctions⟩ hall
    simp only [bind, Except.bind] at houtcome ⊢
    rw [houtcome]
    simp only [Host.passLinks_eq]
    rfl

namespace Marked

/-- A function puts its handle on either side of a text. -/
def host : Host String := ⟨fun _ mark context _ => .ok (.string (mark ++ context.plain ++ mark))⟩

def data : Value String :=
  .record [("marks", .record [("star", .function "*"), ("angle", .function "<")]),
    ("guests", .array [.record [("name", .string "Ada")], .record [("name", .string "Bob")]])]

/-- The text goes to the star and, in capitals, to the angle. -/
def tag : Tag := ⟨"{{#->marks.angle->marks.star::upper}}", some .passSection, .ofPath "marks.angle" false,
  [⟨.ofPath "marks.star" false, some "upper", false⟩], none, false⟩

def head : Section :=
  ⟨tag, .ofPath "marks.angle" false, Link.ofKey (.ofPath "marks.angle" false) :: tag.links⟩

/-- A section over the guests, with the name of each between stars. -/
def body : List Node :=
  [.block ⟨⟨"{{#.guests}}", some .sectionInclude, .ofPath "guests" true, [], none, false⟩,
    .ofPath "guests" true, []⟩
    [.tag ⟨"{{.name->marks.star}}", none, .ofPath "name" true,
      [⟨.ofPath "marks.star" false, none, false⟩], none, false⟩]]

def options : RenderOptions :=
  { RenderOptions.default with escapeAll := true, errorOnFuncFailure := true }

end Marked

open Marked in
/-- What the functions make of the text is not escaped again. -/
theorem Template.render_passSection_marked :
    let policy : FailurePolicy := ⟨head.raw, options.errorOnFuncFailure⟩
    let passed := (Template.render host ⟨[.block head body], .default⟩ data options).result
    passed = ((Template.render host ⟨body, .default⟩ data options).result >>= fun text =>
        (host.passLinks options.numbers policy data (["<", "*"].zip head.links) (.string text)).map
          fun v => if v.isBlank then "" else v.plain) ∧
      (Template.render host ⟨body, .default⟩ data options).result.toOption = some "*Ada**Bob*" ∧
      passed.toOption = some "*<*ADA**BOB*<*" := by
  intro policy passed
  have hkey : ∀ {keys : List Key},
      (∀ key ∈ keys, key.text ≠ "" ∧ key = .ofPath key.text key.inContext) →
      ∀ key ∈ keys, key.Formed := fun hkeys key hm => by
    rw [(hkeys key hm).2]
    exact Key.formed_ofPath fun _ => (hkeys key hm).1
  have hf : (⟨[.block head body], .default⟩ : Template).Formed :=
    ⟨⟨⟨hkey (by decide), fun _ => nofun⟩,
      ⟨⟨hkey (by decide), nofun⟩, hkey (by decide), trivial⟩, trivial⟩, trivial⟩
  have hguests : ∀ key ∈ [Key.ofPath "guests" true], key.inContext = false →
    pathCovers "marks.angle" key.text = false := by decide
  have hname : ∀ key ∈ [Key.ofPath "name" true, .ofPath "marks.star" false], key.inContext = false →
    pathCovers "marks.angle" key.text = false := by decide +kernel
  let find := Run.findChain host policy ScopeTree.root [] head.links
  have hfound : ((find.ending (.start data)).map fun chain => chain.map fun x =>
      ((find.left (.start data)).tree.path x.1, x.2)).toOption =
        some [("marks.angle", "<"), ("marks.star", "*")] := by decide +kernel
  cases hchain : find (.start data) with
  | error e s =>
    rw [(Run.ending_of_error hchain).1] at hfound
    cases hfound
  | ok chain s =>
    rw [(Run.ending_of_ok hchain).1, (Run.ending_of_ok hchain).2] at hfound
    replace hfound : chain.map (fun x => (s.tree.path x.1, x.2)) = _ := Option.some.inj hfound
    have hfunctions : chain.map Prod.snd = ["<", "*"] := by
      have hsecond := congrArg (List.map Prod.snd) hfound
      rwa [List.map_map] at hsecond
    have hclear : ∀ x ∈ chain.head?, PassedText.NoneBelow (s.tree.path x.1) body := fun x hx => by
      have hhead := congrArg List.head? hfound
      rw [List.head?_map, hx] at hhead
      obtain ⟨hpath, -⟩ := Prod.mk.inj (Option.some.inj hhead)
      rw [hpath]
      exact ⟨⟨hguests, hname, trivial⟩, trivial⟩
    obtain ⟨hpassed, -⟩ := Template.render_passSection (fun _ _ _ _ _ => rfl)
      (rfl : tag.directive = some .passSection) rfl hf rfl hchain hclear
    rw [hfunctions] at hpassed
    exact ⟨hpassed, by decide +kernel, by decide +kernel⟩

end TextTemplate
