import TextTemplate.Proofs.Scope.Changes

/-!
Scope trees as they are made. Scopes are numbered in the order of their making, so a parent is older
than what is below it. A field has the cache and the root of its scope; an overlay has a cache that
no older scope uses. So nothing that is reached through the first cache is an overlay, or lies below
one.
-/
namespace TextTemplate
variable {φ : Type}

namespace ScopeTree

variable {t t' : ScopeTree φ} {id : ScopeId}

/-- `c` is the scope of the field `name` of the scope `id`. -/
structure FieldOf (t : ScopeTree φ) (id : ScopeId) (name : String) (c : ScopeId) : Prop where
  lt : c < t.scopes.size
  newer : id < c
  parent : t.parent? c = some id
  path : t.path c = pathStem (t.path id) ++ name
  cache : (t.scope c).cache = (t.scope id).cache
  root : (t.scope c).root = (t.scope id).root

/-- `o` stands in the place of the scope `id`, under `key`. -/
structure OverlayOf (t : ScopeTree φ) (id : ScopeId) (key : OverlayKey) (o : ScopeId) : Prop where
  lt : o < t.scopes.size
  newer : id < o
  parent : t.parent? o = t.parent? id
  path : t.path o = t.path id
  cache : ∀ i < o, (t.scope i).cache ≠ (t.scope o).cache
  chain : ∀ c ∈ key.chain, c < t.scopes.size

theorem FieldOf.mono {name : String} {c : ScopeId} (h : t.FieldOf id name c) (he : t.Extends t') :
    t'.FieldOf id name c where
  lt := he.lt h.lt
  newer := h.newer
  parent := by rw [he.parent c h.lt, h.parent]
  path := by rw [he.path c h.lt, he.path id (Nat.lt_trans h.newer h.lt), h.path]
  cache := by rw [he.cache c h.lt, he.cache id (Nat.lt_trans h.newer h.lt), h.cache]
  root := by rw [he.root c h.lt, he.root id (Nat.lt_trans h.newer h.lt), h.root]

theorem OverlayOf.mono {key : OverlayKey} {o : ScopeId} (h : t.OverlayOf id key o)
    (he : t.Extends t') : t'.OverlayOf id key o where
  lt := he.lt h.lt
  newer := h.newer
  parent := by rw [he.parent o h.lt, he.parent id (Nat.lt_trans h.newer h.lt), h.parent]
  path := by rw [he.path o h.lt, he.path id (Nat.lt_trans h.newer h.lt), h.path]
  cache i hi := by
    rw [he.cache o h.lt, he.cache i (Nat.lt_trans hi h.lt)]
    exact h.cache i hi
  chain c hc := he.lt (h.chain c hc)

structure WellFormed (t : ScopeTree φ) : Prop where
  top_lt : ScopeTree.root < t.scopes.size
  top_cache : (t.scope ScopeTree.root).cache = 0
  parent : ∀ id < t.scopes.size, ∀ p, t.parent? id = some p → p < id
  /-- A scope shares the cache of the scope above it or has a new one. -/
  origin : ∀ id < t.scopes.size, ∀ p, t.parent? id = some p →
    (t.scope id).cache = (t.scope p).cache ∨ ∀ i < id, (t.scope i).cache ≠ (t.scope id).cache
  root : ∀ id < t.scopes.size, (t.scope id).root < t.scopes.size
  cache : ∀ id < t.scopes.size, (t.scope id).cache < t.caches.size
  pending : ∀ id < t.scopes.size, ∀ f, (t.scope id).content = .pending f → t.function? id = some f
  fields : ∀ id < t.scopes.size, ∀ name c, (name, c) ∈ (t.scope id).fields → t.FieldOf id name c
  overlays : ∀ id < t.scopes.size, ∀ key o, (key, o) ∈ (t.scope id).overlays → t.OverlayOf id key o
  cached : ∀ c path id, (path, id) ∈ t.caches.getD c [] →
    id < t.scopes.size ∧ (t.scope id).cache = c ∧ t.path id = path

theorem Grows.wellFormed {v : Value φ} {path : String} {parent : Option ScopeId} {top : ScopeId}
    {cache : Nat} (h : t.Grows t' id (fresh v path parent top cache)) (hw : t.WellFormed)
    (hparent : ∀ p, parent = some p → p < t.scopes.size)
    (horigin : ∀ p, parent = some p →
      cache = (t.scope p).cache ∨ ∀ i < t.scopes.size, (t.scope i).cache ≠ cache)
    (htop : top ≤ t.scopes.size) (hcache : cache < t'.caches.size)
    (hfields : ∀ name c, (name, c) ∈ (t'.scope id).fields →
      (name, c) ∈ (t.scope id).fields ∨ t'.FieldOf id name c)
    (hoverlays : ∀ key o, (key, o) ∈ (t'.scope id).overlays →
      (key, o) ∈ (t.scope id).overlays ∨ t'.OverlayOf id key o)
    (hcached : ∀ c e, e ∈ t'.caches.getD c [] → e ∈ t.caches.getD c [] ∨
      (c = cache ∧ e = (path, t.scopes.size))) : t'.WellFormed := by
  have he := h.kept
  have hnew : t'.parent? t.scopes.size = parent := by rw [parent?, h.made]; rfl
  exact {
    top_lt := he.lt hw.top_lt
    top_cache := (he.cache _ hw.top_lt).trans hw.top_cache
    parent := fun i hi p hp => by
      rcases h.older hi with hi | rfl
      · exact hw.parent i hi p (by rw [← he.parent i hi, hp])
      · exact hparent p (by rw [← hnew, hp])
    origin := fun i hi p hp => by
      rcases h.older hi with hi | rfl
      · have hp' : t.parent? i = some p := by rw [← he.parent i hi, hp]
        rw [he.cache i hi, he.cache p (Nat.lt_trans (hw.parent i hi p hp') hi)]
        refine (hw.origin i hi p hp').imp_right fun hown j hj => ?_
        rw [he.cache j (Nat.lt_trans hj hi)]
        exact hown j hj
      · have hp' : parent = some p := by rw [← hnew, hp]
        rw [h.made, he.cache p (hparent p hp')]
        refine (horigin p hp').imp_right fun hown j hj => ?_
        rw [he.cache j hj]
        exact hown j hj
    root := fun i hi => by
      rcases h.older hi with hi | rfl
      · rw [he.root i hi]
        exact he.lt (hw.root i hi)
      · rw [h.made, h.size]
        exact Nat.lt_succ_of_le htop
    cache := fun i hi => by
      rcases h.older hi with hi | rfl
      · rw [he.cache i hi]
        exact Nat.lt_of_lt_of_le (hw.cache i hi) he.caches_le
      · rw [h.made]
        exact hcache
    pending := fun i hi f hf => by
      rcases h.older hi with hi | rfl
      · rw [he.function i hi]
        refine hw.pending i hi f ?_
        by_cases hne : i = id
        · subst hne
          obtain ⟨_, _, hself⟩ := h.self
          rw [hself] at hf
          exact hf
        · rw [← h.others i hi hne]
          exact hf
      · cases v <;> simp_all [function?, h.made, fresh, Content.ofValue]
    fields := fun i hi name c hc => by
      rcases h.older hi with hi | rfl
      · by_cases hne : i = id
        · subst hne
          exact (hfields name c hc).elim (fun hm => (hw.fields i hi name c hm).mono he) fun hm => hm
        · rw [h.others i hi hne] at hc
          exact (hw.fields i hi name c hc).mono he
      · rw [h.made] at hc
        cases hc
    overlays := fun i hi key o ho => by
      rcases h.older hi with hi | rfl
      · by_cases hne : i = id
        · subst hne
          exact (hoverlays key o ho).elim (fun hm => (hw.overlays i hi key o hm).mono he)
            fun hm => hm
        · rw [h.others i hi hne] at ho
          exact (hw.overlays i hi key o ho).mono he
      · rw [h.made] at ho
        cases ho
    cached := fun c p i hm => by
      rcases hcached c (p, i) hm with hm | ⟨rfl, heq⟩
      · obtain ⟨hi, hc, hp⟩ := hw.cached c p i hm
        exact ⟨he.lt hi, by rw [he.cache i hi, hc], by rw [he.path i hi, hp]⟩
      · obtain ⟨rfl, rfl⟩ := Prod.mk.inj heq
        exact ⟨h.made_lt, by rw [h.made]; rfl, by
          rw [ScopeTree.path, h.made]; rfl⟩ }

theorem AddsField.fieldOf {name : String} {w : Value φ} (ha : t.AddsField t' id name w)
    (hid : id < t.scopes.size) : t'.FieldOf id name t.scopes.size := by
  have hg := ha.grows
  refine ⟨hg.made_lt, hid, ?_, ?_, ?_, ?_⟩
  · rw [parent?, hg.made]
    rfl
  · rw [ScopeTree.path, hg.made, hg.kept.path id hid]
    rfl
  · rw [hg.made, hg.kept.cache id hid]
    rfl
  · rw [hg.made, hg.kept.root id hid]
    rfl

theorem AddsField.wellFormed {name : String} {w : Value φ} (ha : t.AddsField t' id name w)
    (hw : t.WellFormed) (hid : id < t.scopes.size) : t'.WellFormed := by
  refine ha.grows.wellFormed hw ?_ ?_ (Nat.le_of_lt (hw.root id hid)) ?_ ?_ ?_ ?_
  · rintro p ⟨⟩
    exact hid
  · rintro p ⟨⟩
    exact .inl rfl
  · rw [ha.caches]
    exact hw.cache id hid
  · intro n c hc
    rw [ha.self] at hc
    rcases List.mem_cons.1 hc with heq | hm
    · obtain ⟨rfl, rfl⟩ := Prod.mk.inj heq
      exact .inr (ha.fieldOf hid)
    · exact .inl hm
  · intro key o ho
    rw [ha.self] at ho
    exact .inl ho
  · exact ha.cached

theorem AddsOverlay.overlayOf {key : OverlayKey} {v : Value φ} (ha : t.AddsOverlay t' id key v)
    (hw : t.WellFormed) (hid : id < t.scopes.size) (hchain : ∀ c ∈ key.chain, c < t.scopes.size) :
    t'.OverlayOf id key t.scopes.size := by
  have hg := ha.grows
  refine ⟨hg.made_lt, hid, ?_, ?_, fun i hi => ?_, fun c hc =>
    hg.kept.lt (hchain c hc)⟩
  · rw [parent?, hg.made, hg.kept.parent id hid]
    rfl
  · rw [ScopeTree.path, hg.made, hg.kept.path id hid]
    rfl
  · rw [hg.made, hg.kept.cache i hi]
    exact Nat.ne_of_lt (hw.cache i hi)

theorem AddsOverlay.wellFormed {key : OverlayKey} {v : Value φ} (ha : t.AddsOverlay t' id key v)
    (hw : t.WellFormed) (hid : id < t.scopes.size) (hchain : ∀ c ∈ key.chain, c < t.scopes.size) :
    t'.WellFormed := by
  refine ha.grows.wellFormed hw ?_ ?_ ?_ ?_ ?_ ?_ ?_
  · exact fun p hp => Nat.lt_trans (hw.parent id hid p hp) hid
  · exact fun p _ => .inr fun i hi => Nat.ne_of_lt (hw.cache i hi)
  · cases t.parent? id with
    | none => exact Nat.le_refl _
    | some p => exact Nat.le_of_lt (hw.root id hid)
  · rw [ha.caches]
    exact Nat.lt_succ_self _
  · intro n c hc
    rw [ha.self] at hc
    exact .inl hc
  · intro k o ho
    rw [ha.self] at ho
    rcases List.mem_cons.1 ho with heq | hm
    · obtain ⟨rfl, rfl⟩ := Prod.mk.inj heq
      exact .inr (ha.overlayOf hw hid hchain)
    · exact .inl hm
  · exact fun c e he => .inl (ha.cached c e he)

theorem Settles.wellFormed {f : φ} {v : Value φ} (hs : t.Settles t' id v) (hw : t.WellFormed)
    (hid : id < t.scopes.size) (hf : (t.scope id).content = .pending f) : t'.WellFormed := by
  have he := hs.kept hf (hw.pending id hid f hf)
  have hfields := hs.same Scope.fields fun _ _ => rfl
  have hoverlays := hs.same Scope.overlays fun _ _ => rfl
  have hold : ∀ {i}, i < t'.scopes.size → i < t.scopes.size := fun hi => by rwa [hs.size] at hi
  refine ⟨he.lt hw.top_lt, (he.cache _ hw.top_lt).trans hw.top_cache, fun i hi p hp => ?_,
    fun i hi p hp => ?_, fun i hi => ?_, fun i hi => ?_, fun i hi g hg => ?_,
    fun i hi name c hc => ?_, fun i hi key o ho => ?_, fun c p i hm => ?_⟩
  · exact hw.parent i (hold hi) p (by rw [← he.parent i (hold hi), hp])
  · replace hi := hold hi
    have hp' : t.parent? i = some p := by rw [← he.parent i hi, hp]
    rw [he.cache i hi, he.cache p (Nat.lt_trans (hw.parent i hi p hp') hi)]
    refine (hw.origin i hi p hp').imp_right fun hown j hj => ?_
    rw [he.cache j (Nat.lt_trans hj hi)]
    exact hown j hj
  · rw [he.root i (hold hi)]
    exact he.lt (hw.root i (hold hi))
  · rw [he.cache i (hold hi), hs.caches]
    exact hw.cache i (hold hi)
  · rw [he.function i (hold hi)]
    by_cases hne : i = id
    · subst hne
      rw [hs.self] at hg
      cases hg
    · exact hw.pending i (hold hi) g (by rw [← hs.others i hne, hg])
  · exact (hw.fields i (hold hi) name c (hfields i ▸ hc)).mono he
  · exact (hw.overlays i (hold hi) key o (hoverlays i ▸ ho)).mono he
  · rcases hs.cached c (p, i) hm with hm | ⟨rfl, heq⟩
    · obtain ⟨hi, hc, hp⟩ := hw.cached c p i hm
      exact ⟨he.lt hi, by rw [he.cache i hi, hc], by rw [he.path i hi, hp]⟩
    · obtain ⟨rfl, rfl⟩ := Prod.mk.inj heq
      exact ⟨he.lt hid, he.cache i hid, he.path i hid⟩

theorem wellFormed_new (data : Value φ) : (new data).WellFormed := by
  have hscope : (new data).scope ScopeTree.root = fresh data "" none ScopeTree.root 0 :=
    scope_insert_self empty data "" none none 0
  have honly : ∀ id < (new data).scopes.size, id = ScopeTree.root := fun id hid =>
    Nat.lt_one_iff.1 hid
  refine ⟨Nat.zero_lt_one, by rw [hscope]; rfl, fun i hi p hp => ?_, fun i hi p hp => ?_,
    fun i hi => ?_, fun i hi => ?_, fun i hi f hf => ?_, fun i hi name c hc => ?_,
    fun i hi key o ho => ?_, fun c p i hm => ?_⟩
  · simp [parent?, honly i hi, hscope, fresh] at hp
  · simp [parent?, honly i hi, hscope, fresh] at hp
  · rw [honly i hi, hscope]
    exact Nat.zero_lt_one
  · rw [honly i hi, hscope]
    exact Nat.zero_lt_one
  · obtain rfl := honly i hi
    cases data <;> simp_all [function?, fresh, Content.ofValue]
  · rw [honly i hi, hscope] at hc
    cases hc
  · rw [honly i hi, hscope] at ho
    cases ho
  · cases c <;> simp [new, insert, empty, Array.getD_eq_getD_getElem?] at hm

theorem wellFormed_newAt (data : Value φ) (path : String) (v : Value φ) :
    (newAt data path v).2.WellFormed := by
  by_cases hpath : path = ""
  · rw [hpath, newAt_root]
    exact wellFormed_new v
  · obtain ⟨-, hcaches, hg, hroot, hempty⟩ := newAt_grows data v hpath
    have hw := wellFormed_new data
    refine hg.wellFormed hw ?_ ?_ (Nat.zero_le _) ?_ ?_ ?_ ?_
    · rintro p ⟨⟩
      exact hw.top_lt
    · rintro p ⟨⟩
      refine .inr fun i hi => ?_
      obtain rfl : i = ScopeTree.root := Nat.lt_one_iff.1 hi
      rw [hw.top_cache]
      exact Nat.zero_ne_one
    · rw [hcaches]
      exact Nat.one_lt_two
    · exact fun _ _ hm => .inl (hroot ▸ hm)
    · exact fun _ _ hm => .inl (hroot ▸ hm)
    · intro c e he
      rw [hempty] at he
      cases he

/-- Overlays, and all that lies below one. -/
inductive Apart (t : ScopeTree φ) : ScopeId → Prop where
  | overlay {id o : ScopeId} {key : OverlayKey} (lt : id < t.scopes.size)
      (mem : (key, o) ∈ (t.scope id).overlays) : Apart t o
  | under {id p : ScopeId} (lt : id < t.scopes.size) (parent : t.parent? id = some p)
      (above : Apart t p) : Apart t id

namespace WellFormed

/-- Whatever is in a cache of its own is not in the first one. -/
theorem cache_ne_zero (hw : t.WellFormed) (hid : 0 < id)
    (hown : ∀ i < id, (t.scope i).cache ≠ (t.scope id).cache) : (t.scope id).cache ≠ 0 := by
  have := hown ScopeTree.root hid
  rw [hw.top_cache] at this
  exact this.symm

theorem cache_of_apart (hw : t.WellFormed) (h : t.Apart id) : (t.scope id).cache ≠ 0 := by
  induction h with
  | overlay lt mem =>
    have ho := hw.overlays _ lt _ _ mem
    exact hw.cache_ne_zero (Nat.zero_lt_of_lt ho.newer) ho.cache
  | under lt parent _ ih =>
    rcases hw.origin _ lt _ parent with hsame | hown
    · rwa [hsame]
    · exact hw.cache_ne_zero (Nat.zero_lt_of_lt (hw.parent _ lt _ parent)) hown

/-- What is above a scope of the first cache is in the first cache. -/
theorem cache_parent (hw : t.WellFormed) (hid : id < t.scopes.size) {p : ScopeId}
    (hp : t.parent? id = some p) (hc : (t.scope id).cache = 0) : (t.scope p).cache = 0 := by
  rcases hw.origin id hid p hp with hsame | hown
  · rw [← hsame, hc]
  · exact absurd hc (hw.cache_ne_zero (Nat.zero_lt_of_lt (hw.parent id hid p hp)) hown)

theorem known (hw : t.WellFormed) {path : String} {hit : ScopeId}
    (h : t.known? id path = some hit) :
    hit < t.scopes.size ∧ (t.scope hit).cache = (t.scope id).cache := by
  obtain ⟨hlt, hc, -⟩ := hw.cached _ _ _ (mem_of_lookup h)
  exact ⟨hlt, hc⟩

end WellFormed

/-- Where a climb can end: at a scope of the first cache if it starts at one. -/
inductive Landing.Shared (t : ScopeTree φ) (id : ScopeId) : Landing → Prop where
  | found {hit : ScopeId} (lt : hit < t.scopes.size)
      (cache : (t.scope id).cache = 0 → (t.scope hit).cache = 0) : Shared t id (.found hit)
  | descend {start : ScopeId} {segments : List String} (lt : start < t.scopes.size)
      (cache : (t.scope id).cache = 0 → (t.scope start).cache = 0) :
      Shared t id (.descend start segments)

theorem Landing.Shared.above {p : ScopeId} {l : Landing} (h : Shared t p l)
    (hc : (t.scope id).cache = 0 → (t.scope p).cache = 0) : Shared t id l := by
  cases h with
  | found lt cache => exact .found lt fun h0 => cache (hc h0)
  | descend lt cache => exact .descend lt fun h0 => cache (hc h0)

theorem climb_shared (hw : t.WellFormed) (target : String) (segments : List String)
    (hid : id < t.scopes.size) (useCache : Bool) :
    Landing.Shared t id (t.climb target segments id useCache) := by
  have hclimb := climbs_climb hw.parent target segments hid useCache
  generalize t.climb target segments id useCache = landing at hclimb ⊢
  induction hclimb with
  | known known =>
    obtain ⟨hlt, hc⟩ := hw.known known
    exact .found hlt fun h0 => hc.trans h0
  | itself | reached => exact .found hid fun h0 => h0
  | top | covered => exact .descend hid fun h0 => h0
  | above _ parent older _ _ ih =>
    exact (ih (Nat.lt_trans older hid)).above (hw.cache_parent hid parent)

end ScopeTree

end TextTemplate
