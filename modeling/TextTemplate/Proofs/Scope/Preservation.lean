import TextTemplate.Proofs.Scope.Changes
import TextTemplate.Proofs.Scope.Faithful

/-!
What rendering does to a tree, step by step. The scope of a field and an overlay are made at most
once, and a function's value is frozen in place. Each of these steps extends the tree and keeps it
faithful, so it only ever adds what the data already says.
-/
namespace TextTemplate
variable {φ : Type}

namespace ScopeTree

variable {host : Host φ} {propagate : Bool} {data : Value φ} {t t' : ScopeTree φ}

theorem ScopeOk.of_fresh {i : ScopeId} {v : Value φ} {path : String} {parent : Option ScopeId}
    {root cache : Nat} (h : t.scope i = fresh v path parent root cache)
    (hparent : ∀ p, parent = some p → p < i ∧ t.Ready p ∧ root = (t.scope p).root)
    (horphan : parent = none → root = i ∧ path = "") (hcache : cache < t.caches.size)
    (hclean : data.isData = true → v.isData = true) : t.ScopeOk host propagate data i where
  parent p hp := by
    simp only [h, fresh]
    exact hparent p (by simpa [parent?, h, fresh] using hp)
  orphan hp := by
    simp only [ScopeTree.path, h, fresh]
    exact horphan (by simpa [parent?, h, fresh] using hp)
  ready w hw := by
    have hv : v.isFunction = false ∧ v = w := by
      cases v <;> simp_all [fresh, Content.ofValue, Value.isFunction]
    obtain ⟨hf, rfl⟩ := hv
    have hb : (t.place i).bound = v := bound_of_fresh h
    refine ⟨hf, fun raw => ?_⟩
    rw [Place.read_of_not_function (by rw [hb]; exact hf), hb]
  pending f hf := by
    cases v <;> simp_all [fresh, Content.ofValue, function?]
  cache := by simpa [h, fresh] using hcache
  fields name c hc := by simp [h, fresh] at hc
  overlays key o ho := by simp [h, fresh] at ho
  clean hd := by
    rw [bound_of_fresh h]
    exact hclean hd

/-- A scope that is walked to from another joins its cache. -/
theorem Grows.regions_step {id p : ScopeId} {made : Scope φ} {segments : List String}
    (h : t.Grows t' id made) (hr : t.Regions host propagate) (hp : p < t.scopes.size)
    (hc : made.cache = (t.scope p).cache)
    (hs : Place.Steps host propagate (t.place p) segments (t'.place t.scopes.size)) :
    t'.Regions host propagate := by
  obtain ⟨base, hbase⟩ := hr
  refine ⟨base, fun i hi => ?_⟩
  rcases h.older hi with hi | rfl
  · rw [h.kept.cache i hi, h.kept.place_eq hi]
    exact hbase i hi
  · rw [h.made, hc]
    exact .step (hbase p hp) hs

/-- A scope with a cache of its own is the base of it. -/
theorem Grows.regions_own {id : ScopeId} {made : Scope φ} (h : t.Grows t' id made)
    (hr : t.Regions host propagate) (hown : ∀ i < t.scopes.size, (t.scope i).cache ≠ made.cache) :
    t'.Regions host propagate := by
  obtain ⟨base, hbase⟩ := hr
  refine ⟨fun c => if c = made.cache then t'.place t.scopes.size else base c, fun i hi => ?_⟩
  rcases h.older hi with hi | rfl
  · simp only [h.kept.cache i hi, h.kept.place_eq hi, if_neg (hown i hi)]
    exact hbase i hi
  · simp only [h.made, if_true]
    exact .base

/-- A faithful tree stays so when the new scope, and what is noted about it, are right. -/
theorem Grows.faithful {id : ScopeId} {made : Scope φ} (h : t.Grows t' id made)
    (hf : t.Faithful host propagate data) (hid : id < t.scopes.size)
    (hfields : ∀ name c, (name, c) ∈ (t'.scope id).fields →
      (name, c) ∈ (t.scope id).fields ∨ t'.IsChild id name c)
    (hoverlays : ∀ key o, (key, o) ∈ (t'.scope id).overlays →
      (key, o) ∈ (t.scope id).overlays ∨ t'.IsOverlay host propagate data id key o)
    (hmade : t'.ScopeOk host propagate data t.scopes.size)
    (hregion : t'.Regions host propagate)
    (hcached : ∀ c path i, (path, i) ∈ t'.caches.getD c [] → (path, i) ∈ t.caches.getD c [] ∨
      (i = t.scopes.size ∧ made.cache = c ∧ made.path = path)) :
    t'.Faithful host propagate data where
  top_lt := h.kept.lt hf.top_lt
  top_place := by rw [h.kept.place_eq hf.top_lt, hf.top_place]
  data_value := hf.data_value
  scopes i hi := by
    rcases h.older hi with hi | rfl
    · by_cases hne : i = id
      · subst hne
        obtain ⟨f, o, hs⟩ := h.self
        exact (hf.scopes i hi).mono h.kept hi (.inl (by rw [hs])) hfields hoverlays
      · have hs := h.others i hi hne
        exact (hf.scopes i hi).mono h.kept hi (.inl (by rw [hs]))
          (fun _ _ hm => .inl (hs ▸ hm)) (fun _ _ hm => .inl (hs ▸ hm))
    · exact hmade
  regions := hregion
  cached c path i hi := by
    rcases hcached c path i hi with hm | ⟨rfl, hc, hp⟩
    · obtain ⟨hlt, hc, hp⟩ := hf.cached c path i hm
      exact ⟨h.kept.lt hlt, by rw [h.kept.cache i hlt, hc], by rw [h.kept.path i hlt, hp]⟩
    · exact ⟨h.made_lt, by rw [h.made, hc],
        by rw [ScopeTree.path, h.made, hp]⟩

/-- What asking the scope `id`, at `p` with value `v`, for a field gives. -/
inductive FieldIs (t : ScopeTree φ) (id : ScopeId) (p : Place φ) (v : Value φ) (name : String) :
    Option ScopeId → Prop where
  | array (ha : v.isArray = true) : FieldIs t id p v name none
  | itself (ha : v.isArray = false) (hs : isSelfKey name = true) : FieldIs t id p v name (some id)
  | absent (ha : v.isArray = false) (hs : isSelfKey name = false) (hw : v.get? name = none) :
      FieldIs t id p v name none
  | child {c : ScopeId} {w : Value φ} (ha : v.isArray = false) (hs : isSelfKey name = false)
      (hw : v.get? name = some w) (lt : c < t.scopes.size) (ne : c ≠ id)
      (place : t.place c = p.child name w) : FieldIs t id p v name (some c)

theorem AddsField.isChild {id : ScopeId} {name : String} {w : Value φ}
    (ha : t.AddsField t' id name w) (hid : id < t.scopes.size) (hr : t.Ready id)
    (hw : (t.data id).get? name = some w) : t'.IsChild id name t.scopes.size := by
  have hg := ha.grows
  have hplace : t'.place t.scopes.size = (t.place id).child name w := hg.place hid
  refine ⟨hg.made_lt, (Nat.ne_of_lt hid).symm,
    hg.kept.isReady hid hr, w, ?_, ?_⟩
  · rw [hg.kept.data_eq hid hr, hw]
  · rw [hplace, hg.kept.place_eq hid]

/-- The scope of a field that nobody asked for before. -/
theorem AddsField.faithful {id : ScopeId} {name : String} {w : Value φ}
    (ha : t.AddsField t' id name w) (h : t.Faithful host propagate data)
    (hid : id < t.scopes.size) (hr : t.Ready id) (hw : (t.data id).get? name = some w)
    {segments : List String}
    (hsteps : Place.Steps host propagate (t.place id) segments ((t.place id).child name w)) :
    t'.Faithful host propagate data ∧ t.scopes.size < t'.scopes.size ∧
      t'.place t.scopes.size = (t.place id).child name w := by
  have hg := ha.grows
  have hlt := hg.made_lt
  have hplace : t'.place t.scopes.size = (t.place id).child name w := hg.place hid
  refine ⟨?_, hlt, hplace⟩
  refine hg.faithful h hid ?_ ?_ ?_ ?_ ?_
  · intro n c hc
    rw [ha.self] at hc
    rcases List.mem_cons.1 hc with heq | hm
    · obtain ⟨rfl, rfl⟩ := Prod.mk.inj heq
      exact .inr (ha.isChild hid hr hw)
    · exact .inl hm
  · intro key o ho
    rw [ha.self] at ho
    exact .inl ho
  · refine .of_fresh hg.made ?_ (by simp) ?_ ?_
    · rintro p ⟨⟩
      exact ⟨hid, hg.kept.isReady hid hr, (hg.kept.root id hid).symm⟩
    · exact Nat.lt_of_lt_of_le (h.scopes id hid).cache hg.caches_le
    · intro hd
      exact Value.isData_get? (h.data_isData hd hid) hw
  · exact hg.regions_step h.regions hid rfl (by rw [hplace]; exact hsteps)
  · intro c p i hi
    rcases ha.cached c (p, i) hi with hm | ⟨rfl, heq⟩
    · exact .inl hm
    · obtain ⟨rfl, rfl⟩ := Prod.mk.inj heq
      exact .inr ⟨rfl, rfl, rfl⟩

theorem Faithful.field (h : t.Faithful host propagate data) {id : ScopeId}
    (hid : id < t.scopes.size) (hr : t.Ready id) (name : String)
    (hsteps : ∀ w, (t.data id).isArray = false → isSelfKey name = false →
      (t.data id).get? name = some w → ∃ segments,
        Place.Steps host propagate (t.place id) segments ((t.place id).child name w)) :
    t.Extends (t.field id name true).2 ∧ (t.field id name true).2.Faithful host propagate data ∧
      FieldIs (t.field id name true).2 id (t.place id) (t.data id) name
        (t.field id name true).1 := by
  have hcase := field_cases hid name true
  generalize t.field id name true = r at hcase ⊢
  cases hcase with
  | cached looks => cases looks
  | array repeats => exact ⟨.refl t, h, .array repeats⟩
  | itself single self => exact ⟨.refl t, h, .itself single self⟩
  | absent single other lacks => exact ⟨.refl t, h, .absent single other lacks⟩
  | child single other there =>
    have hc := (h.scopes id hid).fields name _ (mem_of_lookup there)
    obtain ⟨w, hw, hp⟩ := hc.place
    exact ⟨.refl t, h, .child single other hw hc.lt hc.ne hp⟩
  | made single other holds adds =>
    obtain ⟨segments, hst⟩ := hsteps _ single other holds
    obtain ⟨hf, hlt, hp⟩ := adds.faithful h hid hr holds hst
    exact ⟨adds.grows.kept, hf, .child single other holds hlt (Nat.ne_of_lt hid).symm hp⟩

/-- A scope made in the place of another, whatever is noted of it. -/
theorem Grows.faithful_overlay {id : ScopeId} {v : Value φ}
    (hg : t.Grows t' id (fresh v (t.path id) (t.parent? id)
      (((t.parent? id).map fun _ => (t.scope id).root).getD t.scopes.size) t.caches.size))
    (h : t.Faithful host propagate data) (hid : id < t.scopes.size)
    (hcaches : t'.caches.size = t.caches.size + 1) (hclean : data.isData = true → v.isData = true)
    (hfields : (t'.scope id).fields = (t.scope id).fields)
    (hoverlays : ∀ key o, (key, o) ∈ (t'.scope id).overlays → (key, o) ∈ (t.scope id).overlays ∨
      (t.scopes.size < t'.scopes.size → t'.place t.scopes.size = (t.place id).overlay v →
        t'.IsOverlay host propagate data id key o))
    (hcached : ∀ c e, e ∈ t'.caches.getD c [] → e ∈ t.caches.getD c []) :
    t'.Faithful host propagate data ∧ t.scopes.size < t'.scopes.size ∧
      t'.place t.scopes.size = (t.place id).overlay v := by
  have hlt := hg.made_lt
  have hplace : t'.place t.scopes.size = (t.place id).overlay v := by
    cases hp : t.parent? id with
    | none =>
      rw [hp] at hg
      rw [hg.place_orphan]
      simp [Place.overlay, ScopeTree.place, above_of_orphan hp, Place.path]
    | some p =>
      have hlt := h.lt_of_parent hid hp
      rw [hp] at hg
      rw [hg.place (Nat.lt_trans hlt hid)]
      simp [Place.overlay, ScopeTree.place, above_of_parent hp hlt, Place.path]
  refine ⟨?_, hlt, hplace⟩
  refine hg.faithful h hid (fun _ _ hc => .inl (hfields ▸ hc))
    (fun key o ho => (hoverlays key o ho).imp_right fun hk => hk hlt hplace) ?_ ?_ ?_
  · refine .of_fresh hg.made ?_ ?_ ?_ hclean
    · intro p hp
      obtain ⟨hlt, hr, hroot⟩ := (h.scopes id hid).parent p hp
      have hps := Nat.lt_trans hlt hid
      refine ⟨hps, hg.kept.isReady hps hr, ?_⟩
      rw [hp, hg.kept.root p hps, ← hroot]
      rfl
    · intro hp
      obtain ⟨-, hpath⟩ := (h.scopes id hid).orphan hp
      rw [hp]
      exact ⟨rfl, hpath⟩
    · rw [hcaches]
      exact Nat.lt_succ_self _
  · exact hg.regions_own h.regions fun i hi => Nat.ne_of_lt (h.scopes i hi).cache
  · intro c p i hi
    exact .inl (hcached c (p, i) hi)

/-- The overlay of a scope that has none under the key. -/
theorem AddsOverlay.faithful {id : ScopeId} {key : OverlayKey} {v : Value φ}
    (ha : t.AddsOverlay t' id key v) (h : t.Faithful host propagate data)
    (hid : id < t.scopes.size) (hclean : data.isData = true → v.isData = true)
    (hkey : ∀ t' : ScopeTree φ, t.Extends t' → ∀ o < t'.scopes.size,
      t'.place o = (t.place id).overlay v → t'.IsOverlay host propagate data id key o) :
    t'.Faithful host propagate data ∧ t.scopes.size < t'.scopes.size ∧
      t'.place t.scopes.size = (t.place id).overlay v := by
  refine ha.grows.faithful_overlay h hid ha.caches hclean (by rw [ha.self]) ?_ ha.cached
  intro k o ho
  rw [ha.self] at ho
  rcases List.mem_cons.1 ho with heq | hm
  · obtain ⟨rfl, rfl⟩ := Prod.mk.inj heq
    exact .inr fun hlt hplace => hkey t' ha.grows.kept _ hlt hplace
  · exact .inl hm

/-- An overlay stands where its scope does and holds what it was asked to hold. -/
theorem Faithful.overlay (h : t.Faithful host propagate data) {id : ScopeId}
    (hid : id < t.scopes.size) (key : OverlayKey) {v : Value φ}
    (hclean : data.isData = true → v.isData = true)
    (hkey : ∀ t' : ScopeTree φ, t.Extends t' → ∀ o < t'.scopes.size,
      t'.place o = (t.place id).overlay v → t'.IsOverlay host propagate data id key o)
    (hmemo : ∀ o, t.IsOverlay host propagate data id key o → t.place o = (t.place id).overlay v) :
    t.Extends (t.overlay id key v).2 ∧ (t.overlay id key v).2.Faithful host propagate data ∧
      (t.overlay id key v).1 < (t.overlay id key v).2.scopes.size ∧
      (t.overlay id key v).2.place (t.overlay id key v).1 = (t.place id).overlay v := by
  have hcase := overlay_cases hid key v
  generalize t.overlay id key v = r at hcase ⊢
  cases hcase with
  | there there =>
    have ho := (h.scopes id hid).overlays key _ (mem_of_lookup there)
    exact ⟨.refl t, h, ho.lt, hmemo _ ho⟩
  | made unmade adds => exact ⟨adds.grows.kept, adds.faithful h hid hclean hkey⟩

theorem Settles.faithful {id : ScopeId} {v : Value φ} (hs : t.Settles t' id v)
    (h : t.Faithful host propagate data) (hid : id < t.scopes.size) {f : φ}
    (hf : (t.scope id).content = .pending f) (hv : v.isFunction = false)
    (hreads : (t.place id).Reads host propagate v) :
    t.Extends t' ∧ t'.Faithful host propagate data := by
  have he : t.Extends t' := hs.kept hf ((h.scopes id hid).pending f hf)
  refine ⟨he, ?_⟩
  refine ⟨he.lt h.top_lt, by rw [he.place_eq h.top_lt, h.top_place], h.data_value, ?_, ?_, ?_⟩
  · intro i hi
    rw [hs.size] at hi
    by_cases hid' : i = id
    · subst hid'
      refine (h.scopes i hi).mono he hi (.inr ⟨v, by rw [hs.self], hv, hreads⟩) ?_ ?_
      · exact fun _ _ hm => .inl (by simpa [hs.self] using hm)
      · exact fun _ _ hm => .inl (by simpa [hs.self] using hm)
    · have hsame := hs.others i hid'
      exact (h.scopes i hi).mono he hi (.inl (by rw [hsame])) (fun _ _ hm => .inl (hsame ▸ hm))
        (fun _ _ hm => .inl (hsame ▸ hm))
  · obtain ⟨base, hbase⟩ := h.regions
    refine ⟨base, fun i hi => ?_⟩
    rw [hs.size] at hi
    rw [he.cache i hi, he.place_eq hi]
    exact hbase i hi
  · intro c path i hi
    rcases hs.cached c (path, i) hi with hm | ⟨rfl, heq⟩
    · obtain ⟨hlt, hc, hp⟩ := h.cached c path i hm
      exact ⟨he.lt hlt, by rw [he.cache i hlt, hc], by rw [he.path i hlt, hp]⟩
    · obtain ⟨rfl, rfl⟩ := Prod.mk.inj heq
      exact ⟨by rw [hs.size]; exact hid, he.cache i hid, he.path i hid⟩

/-- The root of a scope is what stands topmost above it. -/
theorem Faithful.root_spot (h : t.Faithful host propagate data) {id : ScopeId}
    (hid : id < t.scopes.size) :
    (t.scope id).root < t.scopes.size ∧ t.parent? (t.scope id).root = none ∧
      (t.above id).getLast?.getD (t.place id).spot = (t.place (t.scope id).root).spot ∧
      (t.scope id).root ≤ id ∧ ((t.scope id).root ≠ id → t.Ready (t.scope id).root) := by
  induction id using Nat.strongRecOn with
  | _ id ih =>
    cases hp : t.parent? id with
    | none =>
      obtain ⟨hroot, -⟩ := (h.scopes id hid).orphan hp
      rw [hroot, above_of_orphan hp]
      exact ⟨hid, hp, rfl, Nat.le_refl _, fun hne => absurd rfl hne⟩
    | some p =>
      obtain ⟨hlt, hr, hroot⟩ := (h.scopes id hid).parent p hp
      obtain ⟨hsize, hnone, hspot, hle, hready⟩ := ih p hlt (Nat.lt_trans hlt hid)
      rw [hroot, above_of_parent hp hlt]
      refine ⟨hsize, hnone, ?_, Nat.le_trans hle (Nat.le_of_lt hlt), fun _ => ?_⟩
      · rw [List.getLast?_cons]
        exact hspot
      · by_cases hpr : (t.scope p).root = p
        · rw [hpr]
          exact hr
        · exact hready hpr

/-- A function not called yet reads as what it comes to around its scope. -/
theorem Faithful.read_pending (h : t.Faithful host propagate data) {id : ScopeId}
    (hid : id < t.scopes.size) {f : φ} (hf : (t.scope id).content = .pending f) (raw : String) :
    (t.place id).read host ⟨raw, propagate⟩ =
      host.outcome ⟨raw, propagate⟩ f (t.surroundings id).1 (t.surroundings id).2 := by
  have hb : t.bound id = .function f := by
    rw [bound, (h.scopes id hid).pending f hf]
  cases hp : t.parent? id with
  | none =>
    obtain ⟨hroot, -⟩ := (h.scopes id hid).orphan hp
    have hpar : (t.scope id).parent = none := hp
    simp [Place.read, place, Place.bound, hb, above_of_orphan hp, Place.readUnder, Place.readAlone,
      surroundings, hroot, hpar]
  | some p =>
    obtain ⟨hlt, hr, hroot⟩ := (h.scopes id hid).parent p hp
    have hps := Nat.lt_trans hlt hid
    obtain ⟨hsize, hnone, hspot, hle, hready⟩ := h.root_spot hps
    have hne : (t.scope id).root ≠ id := by
      rw [hroot]
      exact Nat.ne_of_lt (Nat.lt_of_le_of_lt hle hlt)
    have hrr : t.Ready (t.scope p).root := by
      by_cases hpr : (t.scope p).root = p
      · rw [hpr]
        exact hr
      · exact hready hpr
    have hcontext := h.reads_data hps hr raw
    have htop := h.reads_data hsize hrr raw
    simp only [Place.read, place, Place.bound] at hcontext htop hspot
    rw [above_of_orphan hnone] at htop
    have hpar : (t.scope id).parent = some p := hp
    simp only [Place.read, place, Place.bound, hb, above_of_parent hp hlt, Place.readUnder,
      hcontext, hspot, show Place.readAlone host ⟨raw, propagate⟩ (t.bound (t.scope p).root) =
        .ok (t.data (t.scope p).root) from htop, bind, Except.bind, surroundings, hpar, hroot,
      Option.map_some, Option.getD_some]
    rw [if_neg (hroot ▸ hne)]

theorem faithful_new (host : Host φ) (propagate : Bool) (hd : data.isFunction = false) :
    (new data).Faithful host propagate data := by
  have hscope : (new data).scope root = fresh data "" none root 0 :=
    scope_insert_self empty data "" none none 0
  have hplace : (new data).place root = .top data := by
    rw [place, above_of_orphan (by simp [parent?, hscope, fresh]), bound_of_fresh hscope]
    simp [ScopeTree.path, hscope, fresh, Place.top]
  have honly : ∀ id < (new data).scopes.size, id = root := fun id hid => Nat.lt_one_iff.1 hid
  refine ⟨Nat.zero_lt_one, hplace, hd, ?_, ⟨fun _ => .top data, ?_⟩, ?_⟩
  · intro id hid
    obtain rfl := honly id hid
    exact .of_fresh hscope (by simp) (fun _ => ⟨rfl, rfl⟩) Nat.zero_lt_one fun h => h
  · intro id hid
    obtain rfl := honly id hid
    rw [hplace]
    exact .base
  · intro c path id hm
    cases c <;> simp [new, insert, empty, Array.getD_eq_getD_getElem?] at hm

/-- A tree for an included template starts with two scopes. -/
theorem faithful_newAt (host : Host φ) (propagate : Bool) (hd : data.isFunction = false)
    {path : String} (hpath : path ≠ "") {v : Value φ} (hclean : data.isData = true → v.isData = true) :
    (newAt data path v).2.Faithful host propagate data ∧
      (newAt data path v).1 < (newAt data path v).2.scopes.size ∧
      (newAt data path v).2.place (newAt data path v).1 = ⟨⟨path, v⟩, [⟨"", data⟩]⟩ := by
  have hn := faithful_new host propagate hd
  obtain ⟨hid, hcaches, hg, hroot, hempty⟩ := newAt_grows data v hpath
  have hplace : (newAt data path v).2.place (new data).scopes.size = ⟨⟨path, v⟩, [⟨"", data⟩]⟩ := by
    rw [hg.place hn.top_lt, hn.top_place]
    rfl
  rw [show (newAt data path v).1 = (new data).scopes.size from hid]
  refine ⟨?_, hg.made_lt, hplace⟩
  refine hg.faithful hn hn.top_lt (fun _ _ hm => .inl (hroot ▸ hm)) (fun _ _ hm => .inl (hroot ▸ hm))
    ?_ ?_ ?_
  · refine .of_fresh hg.made ?_ (by simp) ?_ hclean
    · rintro p ⟨⟩
      exact ⟨hn.top_lt, hg.kept.isReady hn.top_lt hn.ready_root, by rw [hroot]; rfl⟩
    · rw [hcaches]
      exact Nat.one_lt_two
  · exact hg.regions_own hn.regions fun i hi => Nat.ne_of_lt (hn.scopes i hi).cache
  · intro c p i hi
    rw [hempty] at hi
    cases hi

end ScopeTree

end TextTemplate
