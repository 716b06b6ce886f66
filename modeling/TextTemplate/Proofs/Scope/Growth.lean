import TextTemplate.Proofs.Place
import TextTemplate.Scope.Tree

/-!
How scope trees grow. Each scope stands for a place, read off its own path and binding and those of
its parents. A tree that extends another keeps every scope, so it keeps every place.
-/
namespace TextTemplate
variable {φ : Type}

namespace ScopeTree

/-- What was bound at a scope when it was made. -/
def bound (t : ScopeTree φ) (id : ScopeId) : Value φ :=
  match t.function? id with
  | some f => .function f
  | none => t.data id

/-- What stands above a scope, nearest first. -/
def above (t : ScopeTree φ) (id : ScopeId) : List (Spot φ) :=
  match t.parent? id with
  | some p => if p < id then ⟨t.path p, t.bound p⟩ :: above t p else []
  | none => []
termination_by id

def place (t : ScopeTree φ) (id : ScopeId) : Place φ := ⟨⟨t.path id, t.bound id⟩, t.above id⟩

/-- Whether the data of a scope can be read without a call. -/
def Ready (t : ScopeTree φ) (id : ScopeId) : Prop := ∃ v, (t.scope id).content = .ready v

@[simp] theorem place_path (t : ScopeTree φ) (id : ScopeId) : (t.place id).path = t.path id := rfl

@[simp] theorem place_bound (t : ScopeTree φ) (id : ScopeId) : (t.place id).bound = t.bound id := rfl

theorem above_of_parent {t : ScopeTree φ} {id p : ScopeId} (h : t.parent? id = some p)
    (hp : p < id) : t.above id = (t.place p).spot :: (t.place p).above := by
  rw [above, h]
  simp [hp, place]

theorem above_of_orphan {t : ScopeTree φ} {id : ScopeId} (h : t.parent? id = none) :
    t.above id = [] := by
  rw [above, h]

theorem function?_place (t : ScopeTree φ) (id : ScopeId) {f : φ} (h : t.function? id = some f) :
    (t.place id).function? = some f := by
  simp [Place.function?, bound, h]

theorem mem_of_lookup {α β : Type} [BEq α] [LawfulBEq α] {k : α} {v : β} {l : List (α × β)}
    (h : l.lookup k = some v) : (k, v) ∈ l := by
  obtain ⟨before, after, rfl, -⟩ := List.lookup_eq_some_iff.1 h
  simp

theorem size_insert (t : ScopeTree φ) (v : Value φ) (path : String) (parent top : Option ScopeId)
    (cache : Nat) : (t.insert v path parent top cache).2.scopes.size = t.scopes.size + 1 := by
  simp [insert]

theorem scope_insert_of_lt {t : ScopeTree φ} {i : ScopeId} (h : i < t.scopes.size) (v : Value φ)
    (path : String) (parent top : Option ScopeId) (cache : Nat) :
    (t.insert v path parent top cache).2.scope i = t.scope i := by
  have : i ≠ t.scopes.size := Nat.ne_of_lt h
  simp [insert, scope, Array.getD_eq_getD_getElem?, Array.getElem?_push, this]

theorem scope_insert_self (t : ScopeTree φ) (v : Value φ) (path : String)
    (parent top : Option ScopeId) (cache : Nat) :
    (t.insert v path parent top cache).2.scope t.scopes.size = {
      path
      content := .ofValue v
      function := match v with
        | .function f => some f
        | _ => none
      parent
      root := top.getD t.scopes.size
      cache
      fields := []
      overlays := [] } := by
  cases v <;> simp only [insert, scope, Array.getD_eq_getD_getElem?, Array.getElem?_push, if_true,
    Option.getD_some]

@[simp] theorem caches_insert (t : ScopeTree φ) (v : Value φ) (path : String)
    (parent top : Option ScopeId) (cache : Nat) :
    (t.insert v path parent top cache).2.caches = t.caches := rfl

@[simp] theorem fst_insert (t : ScopeTree φ) (v : Value φ) (path : String)
    (parent top : Option ScopeId) (cache : Nat) :
    (t.insert v path parent top cache).1 = t.scopes.size := rfl

@[simp] theorem size_update (t : ScopeTree φ) (id : ScopeId) (f : Scope φ → Scope φ) :
    (t.update id f).scopes.size = t.scopes.size := by
  simp [update]

theorem scope_update_self {t : ScopeTree φ} {id : ScopeId} (h : id < t.scopes.size)
    (f : Scope φ → Scope φ) : (t.update id f).scope id = f (t.scope id) := by
  simp only [update, scope, Array.getD_eq_getD_getElem?, Array.getElem?_modify, if_true,
    Array.getElem?_eq_getElem h, Option.map_some, Option.getD_some]

theorem scope_update_of_ne {t : ScopeTree φ} {id i : ScopeId} (h : id ≠ i)
    (f : Scope φ → Scope φ) : (t.update id f).scope i = t.scope i := by
  simp [update, scope, Array.getD_eq_getD_getElem?, Array.getElem?_modify, h]

@[simp] theorem caches_update (t : ScopeTree φ) (id : ScopeId) (f : Scope φ → Scope φ) :
    (t.update id f).caches = t.caches := rfl

@[simp] theorem scopes_remember (t : ScopeTree φ) (cache : Nat) (path : String) (id : ScopeId) :
    (t.remember cache path id).scopes = t.scopes := rfl

@[simp] theorem scope_remember (t : ScopeTree φ) (cache : Nat) (path : String) (id i : ScopeId) :
    (t.remember cache path id).scope i = t.scope i := rfl

@[simp] theorem size_caches_remember (t : ScopeTree φ) (cache : Nat) (path : String)
    (id : ScopeId) : (t.remember cache path id).caches.size = t.caches.size := by
  simp [remember]

theorem mem_caches_remember {t : ScopeTree φ} {cache c : Nat} {path : String} {id : ScopeId}
    {e : String × ScopeId} (h : e ∈ (t.remember cache path id).caches.getD c []) :
    (c = cache ∧ e = (path, id)) ∨ e ∈ t.caches.getD c [] := by
  simp only [remember, Array.getD_eq_getD_getElem?, Array.getElem?_modify] at h ⊢
  split at h
  · rename_i hc
    subst hc
    cases hcache : t.caches[cache]? with
    | none => simp [hcache] at h
    | some entries =>
      rcases (by simpa [hcache] using h : e = (path, id) ∨ e ∈ entries) with he | he
      · exact .inl ⟨rfl, he⟩
      · exact .inr (by simpa using he)
  · exact .inr h

@[simp] theorem scopes_addCache (t : ScopeTree φ) : t.addCache.2.scopes = t.scopes := rfl

@[simp] theorem scope_addCache (t : ScopeTree φ) (i : ScopeId) :
    t.addCache.2.scope i = t.scope i := rfl

@[simp] theorem fst_addCache (t : ScopeTree φ) : t.addCache.1 = t.caches.size := rfl

@[simp] theorem size_caches_addCache (t : ScopeTree φ) :
    t.addCache.2.caches.size = t.caches.size + 1 := by
  simp [addCache]

theorem mem_caches_addCache {t : ScopeTree φ} {c : Nat} {e : String × ScopeId}
    (h : e ∈ t.addCache.2.caches.getD c []) : e ∈ t.caches.getD c [] := by
  simp only [addCache, Array.getD_eq_getD_getElem?, Array.getElem?_push] at h ⊢
  split at h
  · simp at h
  · exact h

/-- Everything but fields, overlays and pending content is kept. -/
structure Extends (t t' : ScopeTree φ) : Prop where
  size_le : t.scopes.size ≤ t'.scopes.size
  path : ∀ id < t.scopes.size, t'.path id = t.path id
  parent : ∀ id < t.scopes.size, t'.parent? id = t.parent? id
  function : ∀ id < t.scopes.size, t'.function? id = t.function? id
  bound : ∀ id < t.scopes.size, t'.bound id = t.bound id
  root : ∀ id < t.scopes.size, (t'.scope id).root = (t.scope id).root
  cache : ∀ id < t.scopes.size, (t'.scope id).cache = (t.scope id).cache
  caches_le : t.caches.size ≤ t'.caches.size
  ready : ∀ id < t.scopes.size, ∀ v, (t.scope id).content = .ready v →
    (t'.scope id).content = .ready v

namespace Extends
variable {t t' t'' : ScopeTree φ}

theorem refl (t : ScopeTree φ) : Extends t t :=
  ⟨Nat.le_refl _, fun _ _ => rfl, fun _ _ => rfl, fun _ _ => rfl, fun _ _ => rfl, fun _ _ => rfl,
    fun _ _ => rfl, Nat.le_refl _, fun _ _ _ h => h⟩

theorem lt (h : Extends t t') {id : ScopeId} (hid : id < t.scopes.size) : id < t'.scopes.size :=
  Nat.lt_of_lt_of_le hid h.size_le

theorem trans (h : Extends t t') (h' : Extends t' t'') : Extends t t'' where
  size_le := Nat.le_trans h.size_le h'.size_le
  path id hid := (h'.path id (h.lt hid)).trans (h.path id hid)
  parent id hid := (h'.parent id (h.lt hid)).trans (h.parent id hid)
  function id hid := (h'.function id (h.lt hid)).trans (h.function id hid)
  bound id hid := (h'.bound id (h.lt hid)).trans (h.bound id hid)
  root id hid := (h'.root id (h.lt hid)).trans (h.root id hid)
  cache id hid := (h'.cache id (h.lt hid)).trans (h.cache id hid)
  caches_le := Nat.le_trans h.caches_le h'.caches_le
  ready id hid v hv := h'.ready id (h.lt hid) v (h.ready id hid v hv)

theorem above_eq (h : Extends t t') {id : ScopeId} (hid : id < t.scopes.size) :
    t'.above id = t.above id := by
  induction id using Nat.strongRecOn with
  | _ id ih =>
    rw [above, above, h.parent id hid]
    cases hp : t.parent? id with
    | none => rfl
    | some p =>
      by_cases hlt : p < id
      · have hps : p < t.scopes.size := Nat.lt_trans hlt hid
        simp only [hlt, if_true, h.path p hps, h.bound p hps, ih p hlt hps]
      · simp only [hlt, if_false]

theorem place_eq (h : Extends t t') {id : ScopeId} (hid : id < t.scopes.size) :
    t'.place id = t.place id := by
  rw [place, place, h.path id hid, h.bound id hid, h.above_eq hid]

theorem isReady (h : Extends t t') {id : ScopeId} (hid : id < t.scopes.size) (hr : t.Ready id) :
    t'.Ready id := by
  obtain ⟨v, hv⟩ := hr
  exact ⟨v, h.ready id hid v hv⟩

theorem data_eq (h : Extends t t') {id : ScopeId} (hid : id < t.scopes.size) (hr : t.Ready id) :
    t'.data id = t.data id := by
  obtain ⟨v, hv⟩ := hr
  rw [data, data, hv, h.ready id hid v hv]

end Extends

end ScopeTree

end TextTemplate
