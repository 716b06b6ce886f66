import TextTemplate.Proofs.Place.Region
import TextTemplate.Proofs.Scope.Growth

/-!
The invariant of scope trees. A faithful tree remembers nothing but what the data says: what is read
at a scope is what its place reads, the scopes of its fields and overlays stand where the data puts
them, and all scopes that share a cache are walked to from one base. Every change that rendering
makes to a tree keeps it faithful.
-/
namespace TextTemplate
variable {φ : Type}

namespace Value

theorem isData_of_lookup {name : String} {v : Value φ} {fields : List (String × Value φ)}
    (h : fieldsAreData fields = true) (hv : fields.lookup name = some v) : v.isData = true := by
  induction fields with
  | nil => simp at hv
  | cons p fields ih =>
    obtain ⟨k, w⟩ := p
    simp only [fieldsAreData, Bool.and_eq_true] at h
    rw [List.lookup_cons] at hv
    split at hv
    · obtain rfl : w = v := by simpa using hv
      exact h.1
    · exact ih h.2 hv

theorem isData_get? {name : String} {v w : Value φ} (h : v.isData = true)
    (hw : v.get? name = some w) : w.isData = true := by
  cases v with
  | record fields => exact isData_of_lookup (by simpa [isData] using h) hw
  | _ => simp [get?] at hw

theorem isData_getD {items : List (Value φ)} (h : itemsAreData items = true) (i : Nat) :
    (items.getD i .null).isData = true := by
  induction items generalizing i with
  | nil => simp [isData]
  | cons v items ih =>
    simp only [itemsAreData, Bool.and_eq_true] at h
    cases i with
    | zero => simpa using h.1
    | succ i => simpa using ih h.2 i

theorem isFunction_of_isData {v : Value φ} (h : v.isData = true) : v.isFunction = false := by
  cases v <;> simp_all [isData, isFunction]

end Value

namespace ScopeTree

/-- The scopes of each cache are walked to from one base. -/
def Regions (host : Host φ) (propagate : Bool) (t : ScopeTree φ) : Prop :=
  ∃ base : Nat → Place φ, ∀ id < t.scopes.size,
    Place.Within host propagate (base (t.scope id).cache) (t.place id)

/-- What a search goes by. -/
structure Charted (host : Host φ) (propagate : Bool) (t : ScopeTree φ) : Prop where
  parent : ∀ id < t.scopes.size, ∀ p, t.parent? id = some p → p < id
  orphan : ∀ id < t.scopes.size, t.parent? id = none → t.path id = ""
  regions : t.Regions host propagate
  cached : ∀ c path id, (path, id) ∈ t.caches.getD c [] →
    id < t.scopes.size ∧ (t.scope id).cache = c ∧ t.path id = path

/-- A remembered field of a scope. -/
structure IsChild (t : ScopeTree φ) (id : ScopeId) (name : String) (c : ScopeId) : Prop where
  lt : c < t.scopes.size
  ne : c ≠ id
  ready : t.Ready id
  place : ∃ w, (t.data id).get? name = some w ∧ t.place c = (t.place id).child name w

/-- A remembered overlay of a scope: an item of what is read there, or what comes out of functions
without formats. -/
inductive IsOverlay (host : Host φ) (propagate : Bool) (data : Value φ) (t : ScopeTree φ)
    (id : ScopeId) : OverlayKey → ScopeId → Prop where
  | item {index : Nat} {o : ScopeId} {v : Value φ} (lt : o < t.scopes.size)
      (reads : (t.place id).Reads host propagate v)
      (place : t.place o = (t.place id).item v index) :
      IsOverlay host propagate data t id (.item index) o
  | result {chain : List ScopeId} {fs : List φ} {o : ScopeId} {v w : Value φ}
      (lt : o < t.scopes.size) (ne : chain ≠ []) (bound : ∀ c ∈ chain, c < t.scopes.size)
      (functions : chain.map t.function? = fs.map some)
      (reads : (t.place id).Reads host propagate v)
      (passes : ∀ raw, host.passPlain ⟨raw, propagate⟩ data fs v = .ok w)
      (place : t.place o = (t.place id).overlay w) :
      IsOverlay host propagate data t id (.result chain) o

structure ScopeOk (host : Host φ) (propagate : Bool) (data : Value φ) (t : ScopeTree φ)
    (id : ScopeId) : Prop where
  parent : ∀ p, t.parent? id = some p →
    p < id ∧ t.Ready p ∧ (t.scope id).root = (t.scope p).root
  orphan : t.parent? id = none → (t.scope id).root = id ∧ t.path id = ""
  ready : ∀ v, (t.scope id).content = .ready v →
    v.isFunction = false ∧ (t.place id).Reads host propagate v
  pending : ∀ f, (t.scope id).content = .pending f → t.function? id = some f
  cache : (t.scope id).cache < t.caches.size
  fields : ∀ name c, (name, c) ∈ (t.scope id).fields → t.IsChild id name c
  overlays : ∀ key o, (key, o) ∈ (t.scope id).overlays → t.IsOverlay host propagate data id key o
  clean : data.isData = true → (t.bound id).isData = true

structure Faithful (host : Host φ) (propagate : Bool) (data : Value φ) (t : ScopeTree φ) :
    Prop where
  top_lt : root < t.scopes.size
  top_place : t.place root = .top data
  data_value : data.isFunction = false
  scopes : ∀ id < t.scopes.size, t.ScopeOk host propagate data id
  regions : ∃ base : Nat → Place φ, ∀ id < t.scopes.size,
    Place.Within host propagate (base (t.scope id).cache) (t.place id)
  cached : ∀ c path id, (path, id) ∈ t.caches.getD c [] →
    id < t.scopes.size ∧ (t.scope id).cache = c ∧ t.path id = path

variable {host : Host φ} {propagate : Bool} {data : Value φ} {t t' : ScopeTree φ}

theorem IsChild.mono {id c : ScopeId} {name : String} (h : t.IsChild id name c)
    (he : t.Extends t') (hid : id < t.scopes.size) : t'.IsChild id name c where
  lt := he.lt h.lt
  ne := h.ne
  ready := he.isReady hid h.ready
  place := by
    obtain ⟨w, hw, hp⟩ := h.place
    exact ⟨w, by rw [he.data_eq hid h.ready, hw], by rw [he.place_eq h.lt, he.place_eq hid, hp]⟩

theorem IsOverlay.mono {id o : ScopeId} {key : OverlayKey}
    (h : t.IsOverlay host propagate data id key o) (he : t.Extends t') (hid : id < t.scopes.size) :
    t'.IsOverlay host propagate data id key o := by
  cases h with
  | item lt reads place =>
    exact .item (he.lt lt) (he.place_eq hid ▸ reads) (by rw [he.place_eq lt, he.place_eq hid, place])
  | @result chain fs _ _ _ lt ne bound functions reads passes place =>
    have hf : chain.map t'.function? = fs.map some := by
      rw [← functions]
      exact List.map_congr_left fun c hc => he.function c (bound c hc)
    exact .result (he.lt lt) ne (fun c hc => he.lt (bound c hc)) hf (he.place_eq hid ▸ reads) passes
      (by rw [he.place_eq lt, he.place_eq hid, place])

theorem IsOverlay.lt {id o : ScopeId} {key : OverlayKey}
    (h : t.IsOverlay host propagate data id key o) : o < t.scopes.size := by
  cases h <;> assumption

theorem IsOverlay.of_item {id o : ScopeId} {index : Nat}
    (h : t.IsOverlay host propagate data id (.item index) o) :
    ∃ v, (t.place id).Reads host propagate v ∧ t.place o = (t.place id).item v index := by
  generalize hk : OverlayKey.item index = key at h
  cases h with
  | @item i o v _ reads place =>
    obtain rfl : index = i := congrArg OverlayKey.index hk
    exact ⟨v, reads, place⟩
  | @result chain _ _ _ _ _ ne =>
    exact absurd (congrArg OverlayKey.chain hk).symm ne

theorem IsOverlay.of_result {id o : ScopeId} {chain : List ScopeId} (hne : chain ≠ [])
    (h : t.IsOverlay host propagate data id (.result chain) o) :
    ∃ fs v w, chain.map t.function? = fs.map some ∧ (t.place id).Reads host propagate v ∧
      (∀ raw, host.passPlain ⟨raw, propagate⟩ data fs v = .ok w) ∧
      t.place o = (t.place id).overlay w := by
  generalize hk : OverlayKey.result chain = key at h
  cases h with
  | item => exact absurd (congrArg OverlayKey.chain hk) hne
  | @result chain' fs _ v w _ _ _ functions reads passes place =>
    obtain rfl : chain = chain' := congrArg OverlayKey.chain hk
    exact ⟨fs, v, w, functions, reads, passes, place⟩

/-- A scope that keeps its content, or is forced to what its place reads, stays right. -/
theorem ScopeOk.mono {id : ScopeId} (h : t.ScopeOk host propagate data id) (he : t.Extends t')
    (hid : id < t.scopes.size)
    (hcontent : (t'.scope id).content = (t.scope id).content ∨
      ∃ v, (t'.scope id).content = .ready v ∧ v.isFunction = false ∧
        (t.place id).Reads host propagate v)
    (hfields : ∀ name c, (name, c) ∈ (t'.scope id).fields →
      (name, c) ∈ (t.scope id).fields ∨ t'.IsChild id name c)
    (hoverlays : ∀ key o, (key, o) ∈ (t'.scope id).overlays →
      (key, o) ∈ (t.scope id).overlays ∨ t'.IsOverlay host propagate data id key o) :
    t'.ScopeOk host propagate data id where
  parent p hp := by
    obtain ⟨hlt, hr, hroot⟩ := h.parent p (by rw [← hp, he.parent id hid])
    have hps : p < t.scopes.size := Nat.lt_trans hlt hid
    exact ⟨hlt, he.isReady hps hr, by rw [he.root id hid, he.root p hps, hroot]⟩
  orphan hp := by
    obtain ⟨hroot, hpath⟩ := h.orphan (by rw [← hp, he.parent id hid])
    exact ⟨by rw [he.root id hid, hroot], by rw [he.path id hid, hpath]⟩
  ready v hv := by
    rw [he.place_eq hid]
    rcases hcontent with hc | ⟨w, hw, hf, hreads⟩
    · exact h.ready v (hc ▸ hv)
    · obtain rfl : w = v := by simpa [hw] using hv
      exact ⟨hf, hreads⟩
  pending f hf := by
    rw [he.function id hid]
    rcases hcontent with hc | ⟨w, hw, -⟩
    · exact h.pending f (hc ▸ hf)
    · simp [hw] at hf
  cache := by
    rw [he.cache id hid]
    exact Nat.lt_of_lt_of_le h.cache he.caches_le
  fields name c hc := (hfields name c hc).elim (fun hm => (h.fields name c hm).mono he hid) fun hm => hm
  overlays key o ho := (hoverlays key o ho).elim (fun hm => (h.overlays key o hm).mono he hid) fun hm => hm
  clean hd := by
    rw [he.bound id hid]
    exact h.clean hd

namespace Faithful

theorem lt_of_parent (h : t.Faithful host propagate data) {id p : ScopeId}
    (hid : id < t.scopes.size) (hp : t.parent? id = some p) : p < id :=
  ((h.scopes id hid).parent p hp).1

theorem reads_data (h : t.Faithful host propagate data) {id : ScopeId} (hid : id < t.scopes.size)
    (hr : t.Ready id) : (t.place id).Reads host propagate (t.data id) := by
  obtain ⟨v, hv⟩ := hr
  have := ((h.scopes id hid).ready v hv).2
  rwa [ScopeTree.data, hv, Content.data]

theorem ready_of_function (h : t.Faithful host propagate data) {id : ScopeId}
    (hid : id < t.scopes.size) (hf : t.function? id = none) : t.Ready id := by
  cases hc : (t.scope id).content with
  | ready v => exact ⟨v, hc⟩
  | pending f => simp [(h.scopes id hid).pending f hc] at hf

theorem function_root (h : t.Faithful host propagate data) : t.function? root = none := by
  cases hf : t.function? root with
  | none => rfl
  | some f =>
    have hb : t.bound root = data := congrArg Place.bound h.top_place
    have hd := h.data_value
    rw [← hb, bound, hf] at hd
    cases hd

theorem data_root (h : t.Faithful host propagate data) : t.data root = data := by
  have hb : t.bound root = data := congrArg Place.bound h.top_place
  rwa [bound, h.function_root] at hb

theorem ready_root (h : t.Faithful host propagate data) : t.Ready root :=
  h.ready_of_function h.top_lt h.function_root

theorem data_isData (h : t.Faithful host propagate data) (hd : data.isData = true) {id : ScopeId}
    (hid : id < t.scopes.size) : (t.data id).isData = true := by
  have hb := (h.scopes id hid).clean hd
  rw [bound] at hb
  split at hb
  · cases hb
  · exact hb

theorem charted (h : t.Faithful host propagate data) : t.Charted host propagate where
  parent _ hid _ hp := h.lt_of_parent hid hp
  orphan id hid hp := ((h.scopes id hid).orphan hp).2
  regions := h.regions
  cached := h.cached

end Faithful

end ScopeTree

end TextTemplate
