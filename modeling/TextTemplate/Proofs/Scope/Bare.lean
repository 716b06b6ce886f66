import TextTemplate.Proofs.Resolution

/-!
Trees whose overlays may hold anything. The overlay for the result of a section's functions is kept
under the functions alone, and a section with other formats that finds it there is given what the first
one came to. Leaving the overlays noted so far aside, a tree is still faithful, and that is enough to
read its scopes and to search it.
-/
namespace TextTemplate
variable {φ : Type}

namespace ScopeTree

variable {host : Host φ} {propagate : Bool} {data : Value φ} {t t' : ScopeTree φ} {id : ScopeId}

/-- The tree without what its scopes note of their overlays. -/
def bare (t : ScopeTree φ) : ScopeTree φ :=
  { t with scopes := t.scopes.map fun s => { s with overlays := [] } }

@[simp] theorem size_bare (t : ScopeTree φ) : t.bare.scopes.size = t.scopes.size := by simp [bare]

@[simp] theorem caches_bare (t : ScopeTree φ) : t.bare.caches = t.caches := rfl

@[simp] theorem scope_bare (t : ScopeTree φ) (id : ScopeId) :
    t.bare.scope id = { t.scope id with overlays := [] } := by
  simp only [scope, bare, Array.getD_eq_getD_getElem?, Array.getElem?_map]
  cases t.scopes[id]? <;> rfl

@[simp] theorem path_bare (t : ScopeTree φ) (id : ScopeId) : t.bare.path id = t.path id := by
  simp [path]

@[simp] theorem parent?_bare (t : ScopeTree φ) (id : ScopeId) : t.bare.parent? id = t.parent? id := by
  simp [parent?]

@[simp] theorem function?_bare (t : ScopeTree φ) (id : ScopeId) :
    t.bare.function? id = t.function? id := by
  simp [function?]

@[simp] theorem data_bare (t : ScopeTree φ) (id : ScopeId) : t.bare.data id = t.data id := by
  simp [data]

@[simp] theorem ready_bare : t.bare.Ready id ↔ t.Ready id := by simp [Ready]

@[simp] theorem surroundings_bare (t : ScopeTree φ) (id : ScopeId) :
    t.bare.surroundings id = t.surroundings id := by
  have hdata : t.bare.data = t.data := funext (data_bare t)
  simp [surroundings, hdata]

theorem extends_bare (t : ScopeTree φ) : t.Extends t.bare :=
  .of_scopes (Nat.le_of_eq (size_bare t).symm) (Nat.le_refl _) fun id _ => ⟨_, _, scope_bare t id⟩

@[simp] theorem place_bare (hid : id < t.scopes.size) : t.bare.place id = t.place id :=
  (extends_bare t).place_eq hid

theorem Settles.bare {v : Value φ} (h : t.Settles t' id v) : t.bare.Settles t'.bare id v where
  size := by simp [h.size]
  self := by simp [h.self]
  others i hi := by simp [h.others i hi]
  caches := h.caches
  cached c e he := by
    rw [scope_bare, path_bare]
    exact h.cached c e he

theorem Grows.bare {v : Value φ} {path : String} {parent : Option ScopeId} {top : ScopeId}
    {cache : Nat} (h : t.Grows t' id (fresh v path parent top cache)) :
    t.bare.Grows t'.bare id (fresh v path parent top cache) where
  size := by simp [h.size]
  made := by simp [h.made, fresh]
  self := by
    obtain ⟨fields, overlays, hs⟩ := h.self
    exact ⟨fields, [], by simp [hs]⟩
  others i hi hne := by simp [h.others i (by simpa using hi) hne]
  caches_le := h.caches_le

theorem AddsField.bare {name : String} {w : Value φ} (h : t.AddsField t' id name w) :
    t.bare.AddsField t'.bare id name w where
  grows := by simpa using h.grows.bare
  self := by simp [h.self]
  caches := h.caches
  cached c e he := by
    rw [scope_bare, path_bare, size_bare]
    exact h.cached c e he

/-- Faithful but for what the overlays noted so far hold. -/
def FaithfulBare (host : Host φ) (propagate : Bool) (data : Value φ) (t : ScopeTree φ) : Prop :=
  t.bare.Faithful host propagate data

namespace FaithfulBare

variable (h : t.FaithfulBare host propagate data)
include h

theorem top_lt : root < t.scopes.size := by simpa using Faithful.top_lt h

theorem top_place : t.place root = .top data := (place_bare h.top_lt).symm.trans (Faithful.top_place h)

theorem data_root : t.data root = data := by simpa using Faithful.data_root h

theorem ready (hid : id < t.scopes.size) {v : Value φ} (hc : (t.scope id).content = .ready v) :
    v.isFunction = false ∧ (t.place id).Reads host propagate v := by
  rw [← place_bare hid]
  exact (Faithful.scopes h id (by simpa using hid)).ready v (by simpa using hc)

theorem reads_data (hid : id < t.scopes.size) (hr : t.Ready id) :
    (t.place id).Reads host propagate (t.data id) := by
  obtain ⟨v, hv⟩ := hr
  have hreads := (h.ready hid hv).2
  rwa [ScopeTree.data, hv, Content.data]

theorem pending (hid : id < t.scopes.size) {f : φ} (hc : (t.scope id).content = .pending f) :
    t.function? id = some f := by
  simpa using (Faithful.scopes h id (by simpa using hid)).pending f (by simpa using hc)

theorem read_pending (hid : id < t.scopes.size) {f : φ} (hc : (t.scope id).content = .pending f)
    (raw : String) : (t.place id).read host ⟨raw, propagate⟩ =
      host.outcome ⟨raw, propagate⟩ f (t.surroundings id).1 (t.surroundings id).2 := by
  have hb : (t.bare.scope id).content = .pending f := by simpa using hc
  have hread := Faithful.read_pending h (by simpa using hid) hb raw
  rwa [place_bare hid, surroundings_bare] at hread

theorem function_eq {p : Place φ} (hp : t.Stands id p) : p.function? = t.function? id := by
  rw [← function?_bare]
  exact Run.stands_function h (hp.mono (extends_bare t))

theorem charted : t.Charted host propagate := by
  have hc := Faithful.charted h
  refine ⟨fun id hid p hp => hc.parent id (by simpa using hid) p (by simpa using hp),
    fun id hid hp => ?_, ?_, fun c path id hm => ?_⟩
  · simpa using hc.orphan id (by simpa using hid) (by simpa using hp)
  · obtain ⟨base, hbase⟩ := hc.regions
    refine ⟨base, fun id hid => ?_⟩
    have hwithin := hbase id (by simpa using hid)
    rwa [place_bare hid, scope_bare] at hwithin
  · simpa using hc.cached c path id hm

theorem child {name : String} {c : ScopeId} (hid : id < t.scopes.size)
    (hc : (name, c) ∈ (t.scope id).fields) :
    c < t.scopes.size ∧ c ≠ id ∧ ∃ w, (t.data id).get? name = some w ∧
      t.place c = (t.place id).child name w := by
  have hchild := (Faithful.scopes h id (by simpa using hid)).fields name c (by simpa using hc)
  have hlt : c < t.scopes.size := by simpa using hchild.lt
  obtain ⟨w, hw, hp⟩ := hchild.place
  rw [place_bare hlt, place_bare hid] at hp
  exact ⟨hlt, hchild.ne, w, by simpa using hw, hp⟩

end FaithfulBare

theorem faithfulBare_new (host : Host φ) (propagate : Bool) (hd : data.isFunction = false) :
    (new data).FaithfulBare host propagate data := by
  rw [FaithfulBare, show (new data).bare = new data by simp [bare, new, insert, empty]]
  exact faithful_new host propagate hd

theorem Settles.faithfulBare {v : Value φ} (hs : t.Settles t' id v)
    (h : t.FaithfulBare host propagate data) (hid : id < t.scopes.size) {f : φ}
    (hf : (t.scope id).content = .pending f) (hv : v.isFunction = false)
    (hreads : (t.place id).Reads host propagate v) : t'.FaithfulBare host propagate data :=
  (hs.bare.faithful h (by simpa using hid) (by simpa using hf) hv (by rwa [place_bare hid])).2

theorem AddsField.faithfulBare {name : String} {w : Value φ} (ha : t.AddsField t' id name w)
    (h : t.FaithfulBare host propagate data) (hid : id < t.scopes.size) (hr : t.Ready id)
    (hw : (t.data id).get? name = some w) {segments : List String}
    (hsteps : Place.Steps host propagate (t.place id) segments ((t.place id).child name w)) :
    t'.FaithfulBare host propagate data :=
  (ha.bare.faithful h (by simpa using hid) (by simpa using hr) (by simpa using hw)
    (by rwa [place_bare hid])).1

theorem AddsOverlay.faithfulBare {key : OverlayKey} {v : Value φ} (ha : t.AddsOverlay t' id key v)
    (h : t.FaithfulBare host propagate data) (hid : id < t.scopes.size)
    (hclean : data.isData = true → v.isData = true) :
    t'.FaithfulBare host propagate data ∧ t'.place t.scopes.size = (t.place id).overlay v := by
  have hg : t.bare.Grows t'.bare id (fresh v (t.bare.path id) (t.bare.parent? id)
      (((t.bare.parent? id).map fun _ => (t.bare.scope id).root).getD t.bare.scopes.size)
      t.bare.caches.size) := by simpa using ha.grows.bare
  obtain ⟨hf, hlt, hp⟩ := hg.faithful_overlay h (by simpa using hid) (by simpa using ha.caches) hclean
    (by simp [ha.self]) (by simp) ha.cached
  have hlt' : t.scopes.size < t'.scopes.size := by simpa using hlt
  rw [size_bare, place_bare hlt', place_bare hid] at hp
  exact ⟨hf, hp⟩

end ScopeTree

namespace Run

variable {host : Host φ} {propagate : Bool} {data : Value φ} {K : ScopeTree φ → Prop}

/-- What is kept of trees that are faithful but for their overlays when functions are frozen and fields
are made. -/
structure Lasting (host : Host φ) (propagate : Bool) (data : Value φ) (K : ScopeTree φ → Prop) :
    Prop where
  settles : ∀ {t t' id v f}, t.FaithfulBare host propagate data → K t → id < t.scopes.size →
    (t.scope id).content = .pending f → t.Settles t' id v → K t'
  field : ∀ {t t' id name w}, t.FaithfulBare host propagate data → K t → id < t.scopes.size →
    (t.scope id).fields.lookup name = none → t.AddsField t' id name w → K t'

theorem readable_bare (hpure : host.IsPure) (hK : Lasting host propagate data K) :
    Readable host propagate fun t => t.FaithfulBare host propagate data ∧ K t where
  pure _ _ _ := hpure
  ready h hid hc := (h.1.ready hid hc).2
  pending h hid hc := h.1.read_pending hid hc
  settle {t id f v} h hid hc hv hreads := by
    have hs := ScopeTree.settles hid v
    exact ⟨hs.kept hc (h.1.pending hid hc), hs.faithfulBare h.1 hid hc hv hreads,
      hK.settles h.1 h.2 hid hc hs⟩

theorem searchable_bare (hpure : host.IsPure) (hK : Lasting host propagate data K) :
    Searchable host propagate fun t => t.FaithfulBare host propagate data ∧ K t where
  charted h := h.1.charted
  force raw hp := simulates_force (readable_bare hpure hK) hp raw
  field {t id} h hid hr name hsteps := by
    have hcase := ScopeTree.field_cases hid name true
    generalize t.field id name true = r at hcase ⊢
    cases hcase with
    | cached looks => cases looks
    | array repeats => exact ⟨.refl t, h, .array repeats⟩
    | itself single self => exact ⟨.refl t, h, .itself single self⟩
    | absent single other lacks => exact ⟨.refl t, h, .absent single other lacks⟩
    | child single other there =>
      obtain ⟨hlt, hne, w, hw, hplace⟩ := h.1.child hid (ScopeTree.mem_of_lookup there)
      exact ⟨.refl t, h, .child single other hw hlt hne hplace⟩
    | made single other holds adds unmade =>
      obtain ⟨segments, hst⟩ := hsteps _ single other holds
      have hg := adds.grows
      exact ⟨hg.kept, ⟨adds.faithfulBare h.1 hid hr holds hst, hK.field h.1 h.2 hid unmade adds⟩,
        .child single other holds hg.made_lt
          (Nat.ne_of_lt hid).symm (hg.place hid)⟩

end Run

end TextTemplate
