import TextTemplate.Proofs.Paired.Passes
import TextTemplate.Proofs.Scope.Counterparts
import TextTemplate.Proofs.Sessions

/-!
Two renders over the same data, kept abreast. Their trees have the same overlays, in the second there
are other scopes besides, and no function remembers its calls; then both find and read the same, and
passes that are not told apart by what waits do the same.
-/
namespace TextTemplate
variable {φ : Type}

open ScopeTree

/-- What holds of two runs over the same data in trees with the same overlays; in the second there are
scopes at `path` as well. -/
structure Abreast (host : Host φ) (propagate : Bool) (data : Value φ) (extra : List ScopeId)
    (path : String) (w : ScopeTree φ × ScopeTree φ) (s s' : Session φ) : Prop where
  first : s.tree = w.1
  second : s'.tree = w.2
  left : Beside host propagate data w.2 w.1
  right : Beside host propagate data w.1 w.2
  extra : ∀ e ∈ extra, e < w.2.scopes.size ∧ w.2.path e = path

/-- Two runs that are kept abreast. -/
def Pairing.abreast (host : Host φ) (propagate : Bool) (data : Value φ) (extra : List ScopeId)
    (path : String) : Pairing φ where
  World := ScopeTree φ × ScopeTree φ
  Later w v := w.1.Extends v.1 ∧ w.2.Extends v.2
  Holds := Abreast host propagate data extra path
  Same w := Counterpart w.1 w.2
  Read w a a' := (a < w.1.scopes.size ∧ w.1.Ready a) ∧ a' < w.2.scopes.size ∧ w.2.Ready a'
  Good v := v.isFunction = false
  Faults := True
  refl _ := ⟨.refl _, .refl _⟩
  trans h h' := ⟨h.1.trans h'.1, h.2.trans h'.2⟩
  same h ha := ha.mono h.1 h.2
  read h ha := ⟨⟨h.1.lt ha.1.1, h.1.isReady ha.1.1 ha.1.2⟩, h.2.lt ha.2.1,
    h.2.isReady ha.2.1 ha.2.2⟩
  string _ := rfl

namespace PassedText

variable {env : Env φ} {data : Value φ} {extra : List ScopeId} {path : String}
  {w : ScopeTree φ × ScopeTree φ}

/-- The pairing for renders in `env`. -/
abbrev pairing (env : Env φ) (data : Value φ) (extra : List ScopeId) (path : String) : Pairing φ :=
  .abreast env.host env.settings.errorOnFuncFailure data extra path

/-- Trees that are kept beside the tree `u`. -/
abbrev Kept (env : Env φ) (data : Value φ) (u t : ScopeTree φ) : Prop :=
  Beside env.host env.settings.errorOnFuncFailure data u t

theorem readable (hpure : env.host.IsPure) (u : ScopeTree φ) :
    Run.Readable env.host env.settings.errorOnFuncFailure (Kept env data u) :=
  Run.readable_bare hpure (lasting_beside u)

theorem searchable (hpure : env.host.IsPure) (u : ScopeTree φ) :
    Run.Searchable env.host env.settings.errorOnFuncFailure (Kept env data u) :=
  Run.searchable_bare hpure (lasting_beside u)

/-- Runs that do what one computation over places does, each beside any tree. -/
private theorem paired_of_simulates {α β γ : Type} {m : Run φ α} {m' : Run φ β}
    {x : Except TemplateError γ} {R : ScopeTree φ → α → γ → Prop} {R' : ScopeTree φ → β → γ → Prop}
    (h : ∀ u, Simulates (Kept env data u) w.1 m x R)
    (h' : ∀ u, Simulates (Kept env data u) w.2 m' x R') :
    Paired (pairing env data extra path) w (fun v a b => (v.1.Traced ∧ v.2.Traced) ∧
      ∃ c, x = .ok c ∧ R v.1 a c ∧ R' v.2 b c) m m' := by
  rintro ⟨_, _⟩ s s' ⟨he, he'⟩ ⟨rfl, rfl, hl, hr, hx⟩
  have hm := h s'.tree s he hl
  cases x with
  | error e =>
    obtain ⟨s₁, hrun, hext, hl₁⟩ := hm
    obtain ⟨s₁', hrun', -, -⟩ := h' s₁.tree s' he' (hr.turn hl₁.alike.symm)
    rw [hrun]
    exact fun _ => ⟨s₁', hrun'⟩
  | ok c =>
    obtain ⟨a, s₁, hrun, hext, hl₁, hR⟩ := hm
    obtain ⟨b, s₁', hrun', hext', hr₁, hR'⟩ := h' s₁.tree s' he' (hr.turn hl₁.alike.symm)
    rw [hrun]
    refine ⟨b, s₁', (s₁.tree, s₁'.tree), hrun', ⟨hext, hext'⟩,
      ⟨rfl, rfl, hl₁.turn hr₁.alike.symm, hr₁, fun e hmem => ?_⟩,
      ⟨hl₁.traced, hr₁.traced⟩, c, rfl, hR, hR'⟩
    obtain ⟨hlt, hp⟩ := hx e hmem
    exact ⟨hext'.lt hlt, by rw [hext'.path e hlt, hp]⟩

theorem stands {a a' : ScopeId} (ha : Counterpart w.1 w.2 a a') :
    w.1.Stands a (w.1.place a) ∧ w.2.Stands a' (w.1.place a) :=
  ⟨⟨ha.lt, rfl⟩, ha.lt', ha.place⟩

theorem reads (hpure : env.host.IsPure) :
    (pairing env data extra path).Reads env env Key.Formed where
  path {w s s' a a'} hs ha := by
    rw [hs.first, hs.second]
    exact ha.path
  search {w a a' key} raw hk ha := by
    obtain ⟨hst, hst'⟩ := stands ha
    refine (paired_of_simulates
      (fun u => Run.simulates_search_found hpure u hst hk raw)
      (fun u => Run.simulates_search_found hpure u hst' hk raw)).weaken
        fun v r r' hv hfound => ?_
    obtain ⟨⟨ht, ht'⟩, c, -, hr, hr'⟩ := hfound
    cases hr with
    | none => cases hr'; exact .none
    | some hfound =>
      cases hr' with
      | some hfound' =>
        exact .some ((ha.mono hv.1 hv.2).found ht ht' hfound.1.1 hfound'.1.1
          (hfound'.1.2.trans hfound.1.2.symm) hfound.2 hfound'.2)
  function {w s s' a a'} hs ha := by
    obtain ⟨hst, hst'⟩ := stands ha
    rw [hs.first, hs.second, ← hs.left.faithful.function_eq hst, ← hs.right.faithful.function_eq hst']
  top {w s s'} hs := by
    rw [hs.first, hs.second, hs.left.faithful.data_root, hs.right.faithful.data_root]
  value {w a a'} raw ha := by
    obtain ⟨hst, hst'⟩ := stands ha
    have hvalue : ∀ {t : ScopeTree φ} {id : ScopeId} {p : Place φ} (u : ScopeTree φ), t.Stands id p →
        Simulates (Kept env data u) t (Run.value env.host (env.policy raw) id)
          (p.read env.host (env.policy raw)) fun t' v c =>
            v = c ∧ v.isFunction = false ∧ id < t'.scopes.size ∧ t'.Ready id := fun u hp =>
      (Run.simulates_value (readable hpure u) hp raw).weaken fun t' v c he hI hread => by
        have hid := (hp.mono he).1
        obtain ⟨hv, ⟨x, hx⟩, hdata⟩ := hread
        have hf := (hI.faithful.ready hid hx).1
        rw [ScopeTree.data, hx, Content.data] at hdata
        exact ⟨hv, hdata ▸ hf, hid, x, hx⟩
    refine (paired_of_simulates (fun u => hvalue u hst) (fun u => hvalue u hst')).weaken
      fun v x x' _ hread => ?_
    obtain ⟨-, c, -, ⟨hx, hf, hr⟩, hx', -, hr'⟩ := hread
    exact ⟨hx.trans hx'.symm, hf, hr, hr'⟩
  evaluate {w} raw f context root := by
    refine (paired_of_simulates
      (fun _ => Run.simulates_evaluate hpure (env.policy raw) f context root)
      (fun _ => Run.simulates_evaluate hpure (env.policy raw) f context root)).weaken
        fun _ v v' _ hcall => ?_
    obtain ⟨-, c, hc, hv, hv'⟩ := hcall
    exact ⟨hv.trans hv'.symm, hv ▸ Host.outcome_not_function hc⟩
  numbers := rfl
  evalZeroAsTrue := rfl
  escapeAll := rfl

private theorem paired_overlay (hd : data.isData = false) {a a' : ScopeId} {key key' : OverlayKey}
    (ha : Counterpart w.1 w.2 a a') (hk : SameKey w.1 w.2 key key') {v : Value φ}
    (hv : key.chain ≠ [] → v.isFunction = false) :
    Paired (pairing env data extra path) w (fun u o o' => (pairing env data extra path).Same u o o' ∧
        (key.chain ≠ [] → (pairing env data extra path).Read u o o'))
      (Run.onTree fun t => t.overlay a key v) (Run.onTree fun t => t.overlay a' key' v) := by
  refine .onTree ?_
  rintro ⟨_, _⟩ s s' ⟨he, he'⟩ ⟨rfl, rfl, hl, hr, hx⟩
  replace ha := ha.mono he he'
  replace hk := hk.mono he he'
  obtain ⟨hext, hext', hl₁, hr₁, ho⟩ := beside_overlay hd hl hr ha hk hv
  refine ⟨(_, _), ⟨hext, hext'⟩, ⟨rfl, rfl, hl₁, hr₁, fun e hmem => ?_⟩, ho, fun hchain => ?_⟩
  · obtain ⟨hlt, hp⟩ := hx e hmem
    exact ⟨hext'.lt hlt, by rw [hext'.path e hlt, hp]⟩
  · have hchain' : key'.chain ≠ [] := fun he => by
      have hlen := hk.chain.length_eq
      rw [he] at hlen
      exact hchain (List.length_eq_zero_iff.1 hlen)
    exact ⟨hl₁.results _ _ _ (lookup_overlay ha.lt key v) hchain,
      hr₁.results _ _ _ (lookup_overlay ha.lt' key' v) hchain'⟩

/-- The functions of a chain tell its overlay apart. -/
theorem sameKey_result {w : ScopeTree φ × ScopeTree φ} {chain chain' : List (ScopeId × φ)}
    (h : Pairing.SameChain (pairing env data extra path) w chain chain') :
    SameKey w.1 w.2 (.result (chain.map Prod.fst)) (.result (chain'.map Prod.fst)) := by
  refine ⟨rfl, ?_⟩
  show List.Forall₂ (Counterpart w.1 w.2) (chain.map Prod.fst) (chain'.map Prod.fst)
  induction h with
  | nil => exact .nil
  | cons hxy _ ih => exact .cons hxy.1 ih

private theorem paired_innerScope (hd : data.isData = false) {r r' : Resolution φ}
    (hr : Pairing.Resolves (pairing env data extra path) w r r') :
    Paired (pairing env data extra path) w (fun u a a' => (pairing env data extra path).Same u a a' ∧
        (r.isRepeating = true → (pairing env data extra path).Read u a a'))
      (Run.innerScope r) (Run.innerScope r') := by
  have hempty : r'.chain.isEmpty = r.chain.isEmpty := by
    rw [Bool.eq_iff_iff, List.isEmpty_iff_length_eq_zero, List.isEmpty_iff_length_eq_zero,
      hr.chain.length_eq]
  rw [Run.innerScope, Run.innerScope, hr.isRepeating, hr.isDynamic, hempty]
  split
  · rename_i hstays
    refine .pure fun v hv => ⟨(pairing env data extra path).same hv hr.scope, fun hrep => ?_⟩
    rw [hr.dynamic hrep, hrep, Bool.true_and, Bool.not_true, Bool.or_false, List.isEmpty_iff]
      at hstays
    exact (pairing env data extra path).read hv (hr.read hstays hrep)
  · rename_i hmoves
    rw [hr.value]
    refine (paired_overlay hd hr.scope (sameKey_result hr.chain) fun _ => ?_).weaken
      fun u o o' _ ho => ⟨ho.1, fun hrep => ho.2 fun hnil => hmoves ?_⟩
    · cases hv : r.value with
      | none => rfl
      | some v => exact hr.good v hv
    · have hnil : r.chain = [] := List.map_eq_nil_iff.1 hnil
      rw [hrep, hnil]
      rfl

private theorem paired_item (hpure : env.host.IsPure) (hd : data.isData = false) {a a' : ScopeId}
    (raw : String) (index : Nat) (ha : (pairing env data extra path).Same w a a')
    (hread : (pairing env data extra path).Read w a a') :
    Paired (pairing env data extra path) w (pairing env data extra path).Same
      (Run.item env.host (env.policy raw) a index) (Run.item env.host (env.policy raw) a' index) := by
  -- The overlay of the item, when there is none yet.
  have hmake : ∀ {v : ScopeTree φ × ScopeTree φ} (x : Value φ),
      (pairing env data extra path).Same v a a' →
      Paired (pairing env data extra path) v (pairing env data extra path).Same
        (Run.onTree fun t => t.overlay a (.item index) x)
        (Run.onTree fun t => t.overlay a' (.item index) x) := fun x ha =>
    (paired_overlay hd ha (SameKey.item index) fun hne => absurd rfl hne).weaken
      fun _ _ _ _ ho => ho.1
  refine .look fun v s s' hv hs => ?_
  replace ha : Counterpart v.1 v.2 a a' := (pairing env data extra path).same hv ha
  obtain ⟨⟨hlt, hready⟩, hlt', hready'⟩ := (pairing env data extra path).read hv hread
  have hlookup := hs.left.alike.symm.lookup hs.left.traced hs.right.traced ha (SameKey.item index)
  rw [hs.first, hs.second]
  generalize (v.1.scope a).overlays.lookup (.item index) = o,
    (v.2.scope a').overlays.lookup (.item index) = o' at hlookup ⊢
  cases hlookup with
  | some ho => exact .pure fun u hu => (pairing env data extra path).same hu ho
  | none =>
    have hdata : v.2.data a' = v.1.data a := by
      have hreads := hs.left.faithful.reads_data hlt hready ""
      have hreads' := hs.right.faithful.reads_data hlt' hready' ""
      rw [ha.place, hreads] at hreads'
      exact (Except.ok.inj hreads').symm
    dsimp only
    rw [hdata]
    split
    · exact hmake _ ha
    · refine ((reads hpure).value raw ha).bind fun u x x' hu hx => ?_
      obtain ⟨rfl, -⟩ := hx
      exact hmake x ((pairing env data extra path).same hu ha)

/-- No absolute key of the binding lies at the path or below it. -/
def Outside (path : String) (b : Binding) : Prop :=
  ∀ key ∈ b.keys, key.inContext = false → pathCovers path key.text = false

theorem passes (hpure : env.host.IsPure) (hd : data.isData = false) (levels : Nat) :
    (pairing env data extra path).Passes env env (Run.includeText env levels)
      (Run.includeText env levels) (fun b => ∀ key ∈ b.keys, key.Formed) (Outside path)
      (fun _ => True) extra (Pairing.Resolves (pairing env data extra path)) := by
  refine (reads hpure).passes (fun {w s s' b} hs hb key hkey hc e he => ?_)
    (fun path key hkey => hkey.anchored path) (paired_innerScope hd) (paired_item hpure hd)
    (fun {w} raw => ?_) fun {w a a' i} _ ha => ?_
  · rw [hs.second, covers, (hs.extra e he).2]
    exact hb key hkey hc
  · rw [Run.missing]
    split
    · exact .throw _
    · exact .pure fun _ _ => rfl
  · obtain ⟨hst, hst'⟩ := stands ha
    have hinclude : ∀ {t : ScopeTree φ} {id : ScopeId} {p : Place φ} (u : ScopeTree φ), t.Stands id p →
        Simulates (Kept env data u) t (Run.includeText env levels i id)
          (Run.includeAt env data levels i p) fun _ a b => a = b := fun u hp =>
      Run.simulates_includeAt hpure (readable hpure u) (fun hI => hI.faithful.data_root) levels i hp
    refine (paired_of_simulates (fun u => hinclude u hst) (fun u => hinclude u hst')).weaken
      fun _ _ _ _ htext => ?_
    obtain ⟨-, _, -, hx, hx'⟩ := htext
    exact hx.trans hx'.symm

end PassedText

end TextTemplate
