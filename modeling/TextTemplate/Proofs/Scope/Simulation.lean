import TextTemplate.Proofs.Runs
import TextTemplate.Proofs.Scope.Preservation

/-!
Runs without their tree. A run on a faithful tree does what a computation on places does: it ends the
same way, with what stands where the computation says, and leaves a faithful tree that extends the
one it found. Reading and searching scopes are such runs.
-/
namespace TextTemplate
variable {φ : Type}

namespace ScopeTree

/-- The scope `id` stands at the place `p`. -/
def Stands (t : ScopeTree φ) (id : ScopeId) (p : Place φ) : Prop :=
  id < t.scopes.size ∧ t.place id = p

theorem Stands.mono {t t' : ScopeTree φ} {id : ScopeId} {p : Place φ} (h : t.Stands id p)
    (he : t.Extends t') : t'.Stands id p :=
  ⟨he.lt h.1, by rw [he.place_eq h.1, h.2]⟩

theorem Stands.path {t : ScopeTree φ} {id : ScopeId} {p : Place φ} (h : t.Stands id p) :
    t.path id = p.path := by
  rw [← h.2]
  rfl

end ScopeTree

/-- From every tree that extends `t` and has the invariant `I`, the run `m` ends as `x` does, with
results that are related in the tree it leaves; the invariant is kept. -/
def Simulates {α β : Type} (I : ScopeTree φ → Prop) (t : ScopeTree φ) (m : Run φ α)
    (x : Except TemplateError β) (R : ScopeTree φ → α → β → Prop) : Prop :=
  ∀ s : Session φ, t.Extends s.tree → I s.tree →
    match x with
    | .ok b => ∃ a s', m s = .ok a s' ∧ s.tree.Extends s'.tree ∧ I s'.tree ∧ R s'.tree a b
    | .error e => ∃ s', m s = .error e s' ∧ s.tree.Extends s'.tree ∧ I s'.tree

/-- A simulation from faithful trees. -/
abbrev Follows {α β : Type} (host : Host φ) (propagate : Bool) (data : Value φ) (t : ScopeTree φ)
    (m : Run φ α) (x : Except TemplateError β) (R : ScopeTree φ → α → β → Prop) : Prop :=
  Simulates (ScopeTree.Faithful host propagate data) t m x R

namespace Simulates

section Rules

variable {α β γ δ : Type} {I : ScopeTree φ → Prop} {t : ScopeTree φ}

theorem pure {a : α} {b : β} {R : ScopeTree φ → α → β → Prop}
    (h : ∀ t', t.Extends t' → I t' → R t' a b) :
    Simulates I t (Pure.pure a) (.ok b) R :=
  fun s he hf => ⟨a, s, rfl, .refl _, hf, h s.tree he hf⟩

theorem throw {e : TemplateError} {R : ScopeTree φ → α → β → Prop} :
    Simulates I t (MonadExcept.throw e) (.error e) R :=
  fun s _ hf => ⟨s, rfl, .refl _, hf⟩

theorem bind {m : Run φ α} {x : Except TemplateError β} {R : ScopeTree φ → α → β → Prop}
    {f : α → Run φ γ} {g : β → Except TemplateError δ} {R' : ScopeTree φ → γ → δ → Prop}
    (h : Simulates I t m x R)
    (hf : ∀ t' a b, t.Extends t' → I t' → x = .ok b → R t' a b →
      Simulates I t' (f a) (g b) R') :
    Simulates I t (m >>= f) (x >>= g) R' := by
  intro s hs hfaith
  have hm := h s hs hfaith
  cases x with
  | error e =>
    obtain ⟨s', hrun, he, hf'⟩ := hm
    exact ⟨s', by simp [Bind.bind, EStateM.bind, hrun], he, hf'⟩
  | ok b =>
    obtain ⟨a, s', hrun, he, hf', hR⟩ := hm
    have hrest := hf s'.tree a b (hs.trans he) hf' rfl hR s' (.refl _) hf'
    have hb : (Except.ok b >>= g) = g b := rfl
    rw [hb]
    cases hg : g b with
    | error e =>
      rw [hg] at hrest
      obtain ⟨s'', hrun', he', hf''⟩ := hrest
      exact ⟨s'', by simp [Bind.bind, EStateM.bind, hrun, hrun'], he.trans he', hf''⟩
    | ok d =>
      rw [hg] at hrest
      obtain ⟨c, s'', hrun', he', hf'', hR'⟩ := hrest
      exact ⟨c, s'', by simp [Bind.bind, EStateM.bind, hrun, hrun'], he.trans he', hf'', hR'⟩

/-- A step that nothing over places answers to. -/
theorem bindOk {m : Run φ α} {b : β} {R : ScopeTree φ → α → β → Prop} {f : α → Run φ γ}
    {y : Except TemplateError δ} {R' : ScopeTree φ → γ → δ → Prop}
    (h : Simulates I t m (.ok b) R)
    (hf : ∀ t' a, t.Extends t' → I t' → R t' a b →
      Simulates I t' (f a) y R') :
    Simulates I t (m >>= f) y R' :=
  h.bind (g := fun _ => y) fun t' a b' he hf' hb hR => by
    cases hb
    exact hf t' a he hf' hR

/-- A run that looks at the tree first. -/
theorem look {f : ScopeTree φ → Run φ α} {x : Except TemplateError β}
    {R : ScopeTree φ → α → β → Prop}
    (h : ∀ t', t.Extends t' → I t' →
      Simulates I t' (f t') x R) :
    Simulates I t (Run.tree >>= f) x R :=
  fun s hs hf => h s.tree hs hf s (.refl _) hf

/-- A step of the tree. -/
theorem step {g : ScopeTree φ → α × ScopeTree φ} {b : β} {R : ScopeTree φ → α → β → Prop}
    (h : ∀ t', t.Extends t' → I t' →
      t'.Extends (g t').2 ∧ I (g t').2 ∧ R (g t').2 (g t').1 b) :
    Simulates I t (Run.onTree g) (.ok b) R := by
  intro s hs hf
  obtain ⟨he, hf', hR⟩ := h s.tree hs hf
  exact ⟨(g s.tree).1, { s with tree := (g s.tree).2 }, rfl, he, hf', hR⟩

theorem weaken {m : Run φ α} {x : Except TemplateError β} {R R' : ScopeTree φ → α → β → Prop}
    (h : Simulates I t m x R)
    (hR : ∀ t' a b, t.Extends t' → I t' → R t' a b → R' t' a b) :
    Simulates I t m x R' := by
  intro s hs hf
  have hm := h s hs hf
  cases x with
  | error e => exact hm
  | ok b =>
    obtain ⟨a, s', hrun, he, hf', hr⟩ := hm
    exact ⟨a, s', hrun, he, hf', hR s'.tree a b (hs.trans he) hf' hr⟩

/-- The tree itself may be used to say what a run follows. -/
theorem assuming {m : Run φ α} {x : Except TemplateError β} {R : ScopeTree φ → α → β → Prop}
    (h : ∀ t', t.Extends t' → I t' →
      Simulates I t' m x R) : Simulates I t m x R :=
  fun s hs hf => h s.tree hs hf s (.refl _) hf

/-- What a run gives is what the computation gives. -/
theorem of_ok {m : Run φ α} {x : Except TemplateError β} {R : ScopeTree φ → α → β → Prop}
    (h : Simulates I t m x R) {s s' : Session φ} {a : α} (he : t.Extends s.tree) (hs : I s.tree)
    (hrun : m s = .ok a s') :
    ∃ b, x = .ok b ∧ s.tree.Extends s'.tree ∧ I s'.tree ∧ R s'.tree a b := by
  have hm := h s he hs
  cases x with
  | error e =>
    obtain ⟨_, herr, -⟩ := hm
    rw [hrun] at herr
    cases herr
  | ok b =>
    obtain ⟨_, _, hok, hext, hs', hR⟩ := hm
    rw [hrun] at hok
    obtain ⟨rfl, rfl⟩ := EStateM.Result.ok.inj hok
    exact ⟨b, rfl, hext, hs', hR⟩

/-- However the run ends, the invariant is kept. -/
theorem left {m : Run φ α} {x : Except TemplateError β} {R : ScopeTree φ → α → β → Prop}
    (h : Simulates I t m x R) {s : Session φ} (he : t.Extends s.tree) (hs : I s.tree) :
    I (m.left s).tree := by
  have hrun := h s he hs
  cases x with
  | ok b =>
    obtain ⟨a, s', hok, -, hs', -⟩ := hrun
    exact (Run.ending_of_ok hok).2 ▸ hs'
  | error e =>
    obtain ⟨s', herr, -, hs'⟩ := hrun
    exact (Run.ending_of_error herr).2 ▸ hs'

/-- A run that comes to the same ends in the same way. -/
theorem ending {m : Run φ α} {x : Except TemplateError α}
    (h : Simulates I t m x fun _ a b => a = b) {s : Session φ} (he : t.Extends s.tree)
    (hs : I s.tree) : m.ending s = x := by
  have hrun := h s he hs
  cases x with
  | ok a =>
    obtain ⟨_, s', hok, -, -, rfl⟩ := hrun
    exact (Run.ending_of_ok hok).1
  | error e =>
    obtain ⟨s', herr, -, -⟩ := hrun
    exact (Run.ending_of_error herr).1

end Rules

end Simulates

namespace Run

variable {host : Host φ} {propagate : Bool} {data : Value φ} {t : ScopeTree φ}

theorem simulates_evaluate {I : ScopeTree φ → Prop} (hpure : host.IsPure) (policy : FailurePolicy)
    (f : φ) (context top : Value φ) :
    Simulates I t (evaluate host policy f context top) (host.outcome policy f context top)
      fun _ v w => v = w := by
  intro s _ hf
  rw [← Host.evaluate_fst hpure policy f context top s.calls]
  cases h : host.evaluate policy f context top s.calls with
  | mk r calls =>
    cases r with
    | ok v => exact ⟨v, { s with calls }, by simp [evaluate, h], .refl _, hf, rfl⟩
    | error e => exact ⟨{ s with calls }, by simp [evaluate, h], .refl _, hf⟩

theorem follows_evaluate (hpure : host.IsPure) (policy : FailurePolicy) (f : φ)
    (context top : Value φ) :
    Follows host propagate data t (evaluate host policy f context top)
      (host.outcome policy f context top) fun _ v w => v = w :=
  simulates_evaluate hpure policy f context top

/-- Functions depend on their arguments alone, or there are none. -/
def Tame (host : Host φ) (data : Value φ) : Prop := host.IsPure ∨ data.isData = true

/-- What reading a scope asks of an invariant: that the content of a scope is what its place reads,
and that freezing a function keeps it. -/
structure Readable (host : Host φ) (propagate : Bool) (I : ScopeTree φ → Prop) : Prop where
  pure : ∀ {t id f}, I t → id < t.scopes.size → (t.scope id).content = .pending f → host.IsPure
  ready : ∀ {t id v}, I t → id < t.scopes.size → (t.scope id).content = .ready v →
    (t.place id).Reads host propagate v
  pending : ∀ {t id f}, I t → id < t.scopes.size → (t.scope id).content = .pending f → ∀ raw,
    (t.place id).read host ⟨raw, propagate⟩ =
      host.outcome ⟨raw, propagate⟩ f (t.surroundings id).1 (t.surroundings id).2
  settle : ∀ {t id f v}, I t → id < t.scopes.size → (t.scope id).content = .pending f →
    v.isFunction = false → (t.place id).Reads host propagate v →
    t.Extends (t.settle id v) ∧ I (t.settle id v)

theorem readable_faithful (htame : Tame host data) :
    Readable host propagate (ScopeTree.Faithful host propagate data) where
  pure hf hid hc := htame.resolve_right fun hd => by
    have hclean := (hf.scopes _ hid).clean hd
    rw [ScopeTree.bound, (hf.scopes _ hid).pending _ hc] at hclean
    cases hclean
  ready hf hid hc := ((hf.scopes _ hid).ready _ hc).2
  pending hf hid hc := hf.read_pending hid hc
  settle hf hid hc hv hreads := (ScopeTree.settles hid _).faithful hf hid hc hv hreads

section Reading

variable {I : ScopeTree φ → Prop} (hI : Readable host propagate I)
include hI

/-- Forcing a scope reads its place and leaves the scope ready. -/
theorem simulates_force {id : ScopeId} {p : Place φ} (hp : t.Stands id p) (raw : String) :
    Simulates I t (force host ⟨raw, propagate⟩ id) (p.read host ⟨raw, propagate⟩)
      fun t' _ v => t'.Ready id ∧ t'.data id = v := by
  intro s he hs
  obtain ⟨hid, rfl⟩ := hp.mono he
  cases hc : (s.tree.scope id).content with
  | ready v =>
    rw [hI.ready hs hid hc raw]
    exact ⟨(), s, force_ready hc, .refl _, hs, ⟨v, hc⟩, by rw [ScopeTree.data, hc, Content.data]⟩
  | pending f =>
    have hreads := hI.pending hs hid hc
    have hfst := Host.evaluate_fst (hI.pure hs hid hc) ⟨raw, propagate⟩ f
      (s.tree.surroundings id).1 (s.tree.surroundings id).2 s.calls
    rw [hreads raw, ← hfst]
    cases hev : host.evaluate ⟨raw, propagate⟩ f (s.tree.surroundings id).1
        (s.tree.surroundings id).2 s.calls with
    | mk r calls =>
      rw [hev] at hfst
      cases r with
      | error e =>
        exact ⟨{ s with calls }, force_error hc hev, .refl _, hs⟩
      | ok v =>
        have hread : (s.tree.place id).Reads host propagate v :=
          Place.reads_of_read ((hreads raw).trans hfst.symm)
        obtain ⟨hext, hs'⟩ := hI.settle hs hid hc (Host.outcome_not_function hfst.symm) hread
        have hready : ((s.tree.settle id v).scope id).content = .ready v := by
          rw [(ScopeTree.settles hid v).self]
        exact ⟨(), ⟨s.tree.settle id v, calls⟩, force_ok hc hev, hext, hs', ⟨v, hready⟩, by
          rw [ScopeTree.data, hready, Content.data]⟩

theorem simulates_value {id : ScopeId} {p : Place φ} (hp : t.Stands id p) (raw : String) :
    Simulates I t (value host ⟨raw, propagate⟩ id) (p.read host ⟨raw, propagate⟩)
      fun t' v w => v = w ∧ t'.Ready id ∧ t'.data id = v := by
  rw [← bind_pure (p.read host ⟨raw, propagate⟩)]
  refine (simulates_force hI hp raw).bind fun t' _ v he _ _ ⟨hr, hv⟩ => ?_
  refine .look fun t'' he' _ => .pure fun t₃ he₃ _ => ?_
  have hid := (hp.mono he).1
  have hr' := he'.isReady hid hr
  exact ⟨by rw [he'.data_eq hid hr, hv], he₃.isReady (he'.lt hid) hr',
    he₃.data_eq (he'.lt hid) hr'⟩

end Reading

theorem follows_force (htame : Tame host data) {id : ScopeId} {p : Place φ} (hp : t.Stands id p)
    (raw : String) :
    Follows host propagate data t (force host ⟨raw, propagate⟩ id)
      (p.read host ⟨raw, propagate⟩) fun t' _ v => t'.Ready id ∧ t'.data id = v :=
  simulates_force (readable_faithful htame) hp raw

theorem follows_value (htame : Tame host data) {id : ScopeId} {p : Place φ} (hp : t.Stands id p)
    (raw : String) :
    Follows host propagate data t (value host ⟨raw, propagate⟩ id) (p.read host ⟨raw, propagate⟩)
      fun t' v w => v = w ∧ t'.Ready id ∧ (data.isData = true → v.isData = true) :=
  (simulates_value (readable_faithful htame) hp raw).weaken fun _ _ _ he hf ⟨hv, hr, hdata⟩ =>
    ⟨hv, hr, fun hd => hdata ▸ hf.data_isData hd (hp.mono he).1⟩

/-- What a search asks of an invariant: that one can go by it, and that it outlasts reading a scope
and making one of its fields. -/
structure Searchable (host : Host φ) (propagate : Bool) (I : ScopeTree φ → Prop) : Prop where
  charted : ∀ {t}, I t → t.Charted host propagate
  force : ∀ {t id p} (raw : String), t.Stands id p →
    Simulates I t (force host ⟨raw, propagate⟩ id) (p.read host ⟨raw, propagate⟩)
      fun t' _ v => t'.Ready id ∧ t'.data id = v
  field : ∀ {t id}, I t → id < t.scopes.size → t.Ready id → ∀ name,
    (∀ w, (t.data id).isArray = false → ScopeTree.isSelfKey name = false →
      (t.data id).get? name = some w → ∃ segments,
        Place.Steps host propagate (t.place id) segments ((t.place id).child name w)) →
    t.Extends (t.field id name true).2 ∧ I (t.field id name true).2 ∧
      (t.field id name true).2.FieldIs id (t.place id) (t.data id) name (t.field id name true).1

theorem searchable_faithful (htame : Tame host data) :
    Searchable host propagate (ScopeTree.Faithful host propagate data) where
  charted h := h.charted
  force raw hp := follows_force htame hp raw
  field h := h.field

/-- Where a climb ends: at the place the key names, or at the place from which to go on down. -/
inductive LandsAt (host : Host φ) (propagate : Bool) (t : ScopeTree φ) (p : Place φ) (key : Key) :
    ScopeTree.Landing → Prop where
  | found {id : ScopeId} (lt : id < t.scopes.size)
      (search : ∀ raw, p.search host ⟨raw, propagate⟩ key = .ok (some (t.place id))) :
      LandsAt host propagate t p key (.found id)
  | descend {id : ScopeId} {segments : List String} (lt : id < t.scopes.size)
      (nearest : p.nearest key.text = t.place id)
      (below : splitPath key.text = splitPath (t.path id) ++ segments) (ne : segments ≠ []) :
      LandsAt host propagate t p key (.descend id segments)

theorem LandsAt.of_nearest {p q : Place φ} {key : Key} {landing : ScopeTree.Landing}
    (h : LandsAt host propagate t q key landing) (hc : key.inContext = false)
    (hn : p.nearest key.text = q.nearest key.text) : LandsAt host propagate t p key landing := by
  cases h with
  | found lt search =>
    refine .found lt fun raw => ?_
    rw [← search raw]
    simp [Place.search, hc, hn]
  | descend lt nearest below ne => exact .descend lt (hn.trans nearest) below ne

theorem search_of_nearest {p q : Place φ} {key : Key} (hc : key.inContext = false)
    (h : p.nearest key.text = q) (hseg : key.segments.drop (pathDepth q.path) = []) (raw : String) :
    p.search host ⟨raw, propagate⟩ key = .ok (some q) := by
  simp [Place.search, hc, h, hseg, bind, Except.bind, pure, Except.pure]

theorem climb_lands (hf : t.Charted host propagate) {key : Key} (hk : key.Formed)
    (hc : key.inContext = false) {id : ScopeId} (hid : id < t.scopes.size) (useCache : Bool) :
    LandsAt host propagate t (t.place id) key
      (t.climb key.text key.segments id useCache) := by
  have hclimb := ScopeTree.climbs_climb hf.parent key.text key.segments hid useCache
  generalize t.climb key.text key.segments id useCache = landing at hclimb ⊢
  have hseg : key.segments ≠ [] := by
    rw [hk.segments]
    exact fun h => hk.text hc (splitPath_eq_nil.1 h)
  have hdrop : ∀ {id}, t.covers id key.text = true →
      splitPath key.text = splitPath (t.path id) ++ key.segments.drop (pathDepth (t.path id)) := by
    intro id hcov
    obtain ⟨rest, hrest⟩ := pathCovers_iff.1 hcov
    rw [hk.segments, pathDepth_eq_length, ← hrest, List.drop_left]
  induction hclimb with
  | @known id hit known =>
    obtain ⟨hlt, hcache, hpath⟩ := hf.cached _ _ _ (ScopeTree.mem_of_lookup known)
    obtain ⟨base, hbase⟩ := hf.regions
    have hhere := hbase id hid
    have hthere := hbase hit hlt
    rw [hcache] at hthere
    exact .found hlt fun raw => hhere.search_path hthere hk hc hpath.symm raw
  | @itself id same =>
    have hpath : t.path id = key.text := same.resolve_left hseg
    have hcov : pathCovers (t.place id).path key.text = true := by simp [pathCovers, hpath]
    refine .found hid fun raw => search_of_nearest hc (Place.nearest_of_covers hcov) ?_ raw
    simp [hpath, hk.segments, pathDepth_eq_length]
  | @top id _ orphan =>
    have hroot := hf.orphan id hid orphan
    have hcov : pathCovers (t.place id).path key.text = true := by
      simp [pathCovers_iff, hroot]
    exact .descend hid (Place.nearest_of_covers hcov) (by simp [hroot, hk.segments]) hseg
  | @reached id _ _ _ covers rest =>
    have hcov : pathCovers (t.place id).path key.text = true := covers
    exact .found hid fun raw => search_of_nearest hc (Place.nearest_of_covers hcov) rest raw
  | @covered id _ _ _ covers rest =>
    have hcov : pathCovers (t.place id).path key.text = true := covers
    exact .descend hid (Place.nearest_of_covers hcov) (hdrop covers) rest
  | @above id p _ _ parent older covers _ ih =>
    have hnear : (t.place id).nearest key.text = (t.place p).nearest key.text := by
      rw [ScopeTree.place, ScopeTree.above_of_parent parent older]
      exact if_neg (Bool.eq_false_iff.1 covers)
    exact (ih (Nat.lt_trans older hid)).of_nearest hc hnear

section Searching

variable {I : ScopeTree φ → Prop} (hI : Searchable host propagate I)
include hI

private theorem simulates_field {id : ScopeId} {p : Place φ} (hp : t.Stands id p)
    {name : String} (raw : String)
    (hsteps : ∀ v w, p.read host ⟨raw, propagate⟩ = .ok v → v.isArray = false →
      ScopeTree.isSelfKey name = false → v.get? name = some w →
      ∃ segments, Place.Steps host propagate p segments (p.child name w)) :
    Simulates I t (field host ⟨raw, propagate⟩ id name true)
      (p.read host ⟨raw, propagate⟩) fun t' r v => t'.FieldIs id p v name r := by
  rw [← bind_pure (p.read host ⟨raw, propagate⟩)]
  refine (hI.force raw hp).bind fun t' _ v he _ hv ⟨hready, hdata⟩ => ?_
  refine .step fun t'' he' hI' => ?_
  obtain ⟨hid, hplace⟩ := hp.mono he
  have hplace' : t''.place id = p := by rw [he'.place_eq hid, hplace]
  have hdata' : t''.data id = v := by rw [he'.data_eq hid hready, hdata]
  have := hI.field hI' (he'.lt hid) (he'.isReady hid hready) name fun w ha hs hw => by
    rw [hplace']
    exact hsteps v w hv (hdata' ▸ ha) hs (hdata' ▸ hw)
  rwa [hplace', hdata'] at this

/-- Below a sequence nothing is found. -/
private theorem simulates_descend_array {id : ScopeId} {p : Place φ}
    (hp : t.Stands id p) {raw : String} {v : Value φ} (hv : p.read host ⟨raw, propagate⟩ = .ok v)
    (ha : v.isArray = true) (target joined : String) (segments : List String) :
    Simulates I t (descend host ⟨raw, propagate⟩ target joined segments id)
      (.ok none) fun t' => Option.Rel t'.Stands := by
  induction segments generalizing joined t with
  | nil => exact .pure fun _ _ _ => .none
  | cons segment segments ih =>
    have hbind : (Except.ok none : Except TemplateError (Option (Place φ))) =
        p.read host ⟨raw, propagate⟩ >>= fun _ => .ok none := by
      rw [hv]
      rfl
    rw [descend, hbind]
    refine (simulates_field hI hp raw fun w _ hw hna => ?_).bind fun t' r w he _ hw hr => ?_
    · rw [hv] at hw
      cases hw
      simp [ha] at hna
    · rw [hv] at hw
      cases hw
      cases hr with
      | array => exact ih (hp.mono he) _
      | itself hna | absent hna | child hna => simp [ha] at hna

/-- Going down from a scope finds what walking from its place finds. -/
private theorem simulates_descend {raw target : String} {segments : List String}
    {id : ScopeId} {p : Place φ} {joined : String} {before : List String} (hp : t.Stands id p)
    (hwalk : Place.Walking host propagate p joined before) (hdot : Dotless segments)
    (hne : joined ≠ "" ∨ segments ≠ [])
    (htarget : splitPath target = splitPath p.path ++ (before ++ segments)) :
    Simulates I t (descend host ⟨raw, propagate⟩ target joined segments id)
      (p.walk host ⟨raw, propagate⟩ joined segments >>= fun r => .ok (r.map Prod.fst))
      fun t' => Option.Rel t'.Stands := by
  induction segments generalizing t id p joined before with
  | nil =>
    have hjne : joined ≠ "" := hne.resolve_right fun h => h rfl
    simp only [descend, Place.walk, String.isEmpty_iff, hjne, if_false]
    exact .pure fun _ _ _ => .none
  | cons segment segments ih =>
    have hsdot : '.' ∉ segment.toList := hdot segment List.mem_cons_self
    have hrest : Dotless segments := fun x hx => hdot x (List.mem_cons_of_mem _ hx)
    rw [descend, Place.walk, bind_assoc]
    refine (simulates_field hI hp raw fun v w hv ha hs hw =>
      ⟨_, hwalk.steps hsdot hv ha hs hw⟩).bind fun t' r v he hf hv hr => ?_
    cases hr with
    | array ha =>
      simp only [ha, if_true]
      rw [Place.walk_array hv ha (.inl (by simp))]
      exact simulates_descend_array hI (hp.mono he) hv ha _ _ _
    | itself ha hs =>
      simp only [ha, hs, if_true, Bool.false_eq_true, if_false]
      exact .pure fun t'' he' _ => .some ((hp.mono he).mono he')
    | absent ha hs hw =>
      simp only [ha, hs, hw, Bool.false_eq_true, if_false]
      refine ih (hp.mono he) (hwalk.next hsdot hv ha hs hw) hrest (.inl (by simp)) ?_
      rw [htarget, List.append_assoc, List.singleton_append]
    | @child c w ha hs hw lt ne place =>
      have hc : t'.Stands c (p.child (joined ++ segment) w) := ⟨lt, place⟩
      have hpath := Place.path_child (p := p) (w := w) hwalk.names hsdot hs
      simp only [ha, hs, hw, ne, Bool.false_eq_true, if_false]
      refine .look fun t'' he' hf' => ?_
      have hc' := hc.mono he'
      by_cases hend : segments = []
      · subst hend
        simp only [List.isEmpty_nil, Bool.true_or, if_true, Place.walk_nil]
        exact .pure fun t₃ he₃ _ => .some (hc'.mono he₃)
      · -- The path of the child is shorter than the target, so the search goes on.
        have hbefore : t''.path c ≠ target := by
          intro htgt
          rw [hc'.path] at htgt
          rw [← htgt, hpath] at htarget
          simp [hend] at htarget
        simp only [List.isEmpty_eq_false_iff.2 hend, hbefore, decide_false, Bool.or_false,
          Bool.false_eq_true, if_false]
        refine ih hc' (.start _) hrest (.inr hend) ?_
        rw [htarget, hpath]
        simp

private theorem simulates_search_inContext {id : ScopeId} {p : Place φ} (hp : t.Stands id p)
    {key : Key} (hk : key.Formed) (hc : key.inContext = true) (raw : String) :
    Simulates I t (search host ⟨raw, propagate⟩ id key)
      (p.search host ⟨raw, propagate⟩ key) fun t' => Option.Rel t'.Stands := by
  refine .look fun t' he hI' => ?_
  have hf := hI.charted hI'
  obtain ⟨hid, rfl⟩ := hp.mono he
  simp only [hc, if_true]
  by_cases htext : key.text = ""
  · have hsearch : (t'.place id).search host ⟨raw, propagate⟩ key = .ok (some (t'.place id)) := by
      simp [Place.search, hc, hk.segments, htext, bind, Except.bind, pure, Except.pure]
    rw [hsearch, htext]
    exact .pure fun t'' he' _ => .some (ScopeTree.Stands.mono ⟨hid, rfl⟩ he')
  · simp only [String.isEmpty_iff, htext, if_false]
    cases hknown : t'.known? id (pathStem (t'.path id) ++ key.text) with
    | some hit =>
      obtain ⟨hlt, hcache, hpath⟩ := hf.cached _ _ _ (ScopeTree.mem_of_lookup hknown)
      obtain ⟨base, hbase⟩ := hf.regions
      have hhere := hbase id hid
      have hthere := hbase hit hlt
      rw [hcache] at hthere
      rw [hhere.search_below hthere hk hc hpath htext raw]
      exact .pure fun t'' he' _ => .some (ScopeTree.Stands.mono ⟨hlt, rfl⟩ he')
    | none =>
      have hdot : Dotless key.segments := hk.segments ▸ dotless_splitPath key.text
      have hseg : key.segments ≠ [] := by
        rw [hk.segments]
        exact fun h => htext (splitPath_eq_nil.1 h)
      have hself : t'.path id ≠ pathStem (t'.path id) ++ key.text := by
        intro h
        have := congrArg splitPath h
        rw [splitPath_stem _ htext, List.self_eq_append_right, splitPath_eq_nil] at this
        exact htext this
      have hsearch : (t'.place id).search host ⟨raw, propagate⟩ key =
          (t'.place id).walk host ⟨raw, propagate⟩ "" key.segments >>=
            fun r => .ok (r.map Prod.fst) := by
        simp [Place.search, hc, pure, Except.pure]
      simp only [List.isEmpty_eq_false_iff.2 hseg, hself, decide_false, Bool.or_self,
        Bool.false_eq_true, if_false, hsearch]
      refine simulates_descend hI ⟨hid, rfl⟩ (.start _) hdot (.inr hseg) ?_
      rw [splitPath_stem _ htext, hk.segments]
      rfl

private theorem simulates_search_absolute {id : ScopeId} {p : Place φ} (hp : t.Stands id p)
    {key : Key} (hk : key.Formed) (hc : key.inContext = false) (raw : String) :
    Simulates I t (search host ⟨raw, propagate⟩ id key)
      (p.search host ⟨raw, propagate⟩ key) fun t' => Option.Rel t'.Stands := by
  refine .look fun t' he hI' => ?_
  obtain ⟨hid, rfl⟩ := hp.mono he
  simp only [hc, Bool.false_eq_true, if_false]
  have hland := climb_lands (hI.charted hI') hk hc hid true
  cases hl : t'.climb key.text key.segments id true with
  | found hit =>
    rw [hl] at hland
    obtain ⟨lt, search⟩ := hland
    rw [search raw]
    exact .pure fun t'' he' _ => .some (ScopeTree.Stands.mono ⟨lt, rfl⟩ he')
  | descend start segments =>
    rw [hl] at hland
    obtain - | ⟨lt, nearest, below, ne⟩ := hland
    have hdrop : key.segments.drop (pathDepth (t'.path start)) = segments := by
      rw [hk.segments, pathDepth_eq_length, below]
      exact List.drop_left
    have hsearch : (t'.place id).search host ⟨raw, propagate⟩ key =
        (t'.place start).walk host ⟨raw, propagate⟩ "" segments >>=
          fun r => .ok (r.map Prod.fst) := by
      simp [Place.search, hc, nearest, hdrop, pure, Except.pure]
    have hrest : Dotless segments := fun x hx => by
      refine dotless_splitPath key.text x ?_
      rw [below]
      exact List.mem_append_right _ hx
    rw [hsearch]
    exact simulates_descend hI ⟨lt, rfl⟩ (.start _) hrest (.inr ne) below

/-- Searching from a scope finds what searching from its place finds. -/
theorem simulates_search {id : ScopeId} {p : Place φ} (hp : t.Stands id p)
    {key : Key} (hk : key.Formed) (raw : String) :
    Simulates I t (search host ⟨raw, propagate⟩ id key)
      (p.search host ⟨raw, propagate⟩ key) fun t' => Option.Rel t'.Stands := by
  cases hc : key.inContext with
  | true => exact simulates_search_inContext hI hp hk hc raw
  | false => exact simulates_search_absolute hI hp hk hc raw

end Searching

end Run

end TextTemplate
