import TextTemplate.Proofs.Paired
import TextTemplate.Proofs.Place.Twin
import TextTemplate.Proofs.Scope.Upkeep

/-!
The same tree over two data. The data are records that differ in one field, and no scope was ever made
for that field: then nothing in the trees differs but the data of the topmost scope. A search that
spares the field finds the same scope in both trees, and they stay the same.
-/
namespace TextTemplate
variable {φ : Type}

namespace ScopeTree

variable {k : String} {d d' : Value φ} {t t' : ScopeTree φ} {id : ScopeId}

/-- Two trees that only differ in the data of the topmost scope. -/
structure Rerooted (d d' : Value φ) (t t' : ScopeTree φ) : Prop where
  top_lt : root < t.scopes.size
  size : t'.scopes.size = t.scopes.size
  caches : t'.caches = t.caches
  top : (t.scope root).content = .ready d
  top' : t'.scope root = { t.scope root with content := .ready d' }
  others : ∀ i < t.scopes.size, i ≠ root → t'.scope i = t.scope i

namespace Rerooted

/-- All else about a scope is the same. -/
theorem same (h : Rerooted d d' t t') {α : Type} (g : Scope φ → α)
    (hg : ∀ s c, g { s with content := c } = g s) (hid : id < t.scopes.size) :
    g (t'.scope id) = g (t.scope id) := by
  by_cases hne : id = root
  · subst hne
    rw [h.top', hg]
  · rw [h.others id hid hne]

theorem path (h : Rerooted d d' t t') (hid : id < t.scopes.size) : t'.path id = t.path id :=
  h.same Scope.path (fun _ _ => rfl) hid

theorem data (h : Rerooted d d' t t') (hid : id < t.scopes.size) (hne : id ≠ root) :
    t'.data id = t.data id := by
  rw [ScopeTree.data, ScopeTree.data, h.others id hid hne]

theorem data_top (h : Rerooted d d' t t') : t.data root = d ∧ t'.data root = d' := by
  rw [ScopeTree.data, ScopeTree.data, h.top, h.top']
  exact ⟨rfl, rfl⟩

theorem known? (h : Rerooted d d' t t') (hid : id < t.scopes.size) (path : String) :
    t'.known? id path = t.known? id path := by
  have hcache := h.same Scope.cache (fun _ _ => rfl) hid
  rw [ScopeTree.known?, ScopeTree.known?, cached?, cached?, h.caches, hcache]

theorem isRepeating (h : Rerooted d d' t t') (hR : Place.Roots k d d') (hid : id < t.scopes.size) :
    t'.isRepeating id = t.isRepeating id := by
  rw [ScopeTree.isRepeating, ScopeTree.isRepeating]
  by_cases hne : id = root
  · subst hne
    rw [h.data_top.1, h.data_top.2, hR.isArray.1, hR.isArray.2]
  · rw [h.data hid hne]

theorem remember (h : Rerooted d d' t t') (cache : Nat) (path : String) (id : ScopeId) :
    Rerooted d d' (t.remember cache path id) (t'.remember cache path id) :=
  { h with caches := by rw [ScopeTree.remember, ScopeTree.remember, h.caches] }

theorem addCache (h : Rerooted d d' t t') : Rerooted d d' t.addCache.2 t'.addCache.2 :=
  { h with caches := by rw [ScopeTree.addCache, ScopeTree.addCache, h.caches] }

theorem insert (h : Rerooted d d' t t') (v : Value φ) (path : String) (parent top : Option ScopeId)
    (cache : Nat) :
    Rerooted d d' (t.insert v path parent top cache).2 (t'.insert v path parent top cache).2 where
  top_lt := by
    rw [size_insert]
    exact Nat.lt_succ_of_lt h.top_lt
  size := by rw [size_insert, size_insert, h.size]
  caches := h.caches
  top := by rw [scope_insert_of_lt h.top_lt, h.top]
  top' := by
    rw [scope_insert_of_lt h.top_lt, scope_insert_of_lt (by rw [h.size]; exact h.top_lt), h.top']
  others i hi hne := by
    rw [size_insert] at hi
    rcases Nat.lt_succ_iff_lt_or_eq.1 hi with hi | rfl
    · rw [scope_insert_of_lt hi, scope_insert_of_lt (by rw [h.size]; exact hi), h.others i hi hne]
    · rw [scope_insert_self]
      conv_lhs => rw [← h.size, scope_insert_self, h.size]

theorem update (h : Rerooted d d' t t') (hid : id < t.scopes.size) {f : Scope φ → Scope φ}
    (hf : ∀ s c, f { s with content := c } = { f s with content := c }) :
    Rerooted d d' (t.update id f) (t'.update id f) where
  top_lt := by
    rw [size_update]
    exact h.top_lt
  size := by rw [size_update, size_update, h.size]
  caches := h.caches
  top := by
    by_cases hne : id = root
    · subst hne
      have hcontent : (f (t.scope root)).content = (t.scope root).content :=
        (congrArg Scope.content (hf (t.scope root) (t.scope root).content)).trans rfl
      rw [scope_update_self hid, hcontent, h.top]
    · rw [scope_update_of_ne hne, h.top]
  top' := by
    by_cases hne : id = root
    · subst hne
      rw [scope_update_self hid, scope_update_self (by rw [h.size]; exact hid), h.top', hf]
    · rw [scope_update_of_ne hne, scope_update_of_ne hne, h.top']
  others i hi hne := by
    rw [size_update] at hi
    by_cases hii : id = i
    · subst hii
      rw [scope_update_self hid, scope_update_self (by rw [h.size]; exact hid), h.others id hid hne]
    · rw [scope_update_of_ne hii, scope_update_of_ne hii, h.others i hi hne]

/-- A field other than the one in which the data differ is found or made in both trees. -/
theorem field (h : Rerooted d d' t t') (hR : Place.Roots k d d') (hid : id < t.scopes.size)
    {name : String} (hname : id = root → isSelfKey name = false → name ≠ k) (skipCache : Bool) :
    (t'.field id name skipCache).1 = (t.field id name skipCache).1 ∧
      Rerooted d d' (t.field id name skipCache).2 (t'.field id name skipCache).2 := by
  have hpath : (t'.scope id).path = (t.scope id).path := h.path hid
  have hroot : (t'.scope id).root = (t.scope id).root := h.same Scope.root (fun _ _ => rfl) hid
  have hcache : (t'.scope id).cache = (t.scope id).cache := h.same Scope.cache (fun _ _ => rfl) hid
  have hfields : (t'.scope id).fields = (t.scope id).fields :=
    h.same Scope.fields (fun _ _ => rfl) hid
  simp only [ScopeTree.field, hpath, hroot, hcache, hfields, h.known? hid, h.isRepeating hR hid]
  split
  · exact ⟨rfl, h⟩
  · split
    · exact ⟨rfl, h⟩
    · split
      · exact ⟨rfl, h⟩
      · rename_i hself
        have hget : (t'.data id).get? name = (t.data id).get? name := by
          by_cases hne : id = root
          · subst hne
            rw [h.data_top.1, h.data_top.2, hR.other name (hname rfl (Bool.eq_false_iff.2 hself))]
          · rw [h.data hid hne]
        rw [hget]
        split
        · exact ⟨rfl, h⟩
        · split
          · exact ⟨rfl, h⟩
          · rename_i w _
            have hins := h.insert w (pathStem (t.scope id).path ++ name) (some id)
              (some (t.scope id).root) (t.scope id).cache
            refine ⟨by rw [fst_insert, fst_insert, h.size], ?_⟩
            rw [fst_insert, fst_insert, h.size]
            exact (hins.update (by rw [size_insert]; exact Nat.lt_succ_of_lt hid)
              fun _ _ => rfl).remember _ _ _

/-- An overlay is found or made in both trees. -/
theorem overlay (h : Rerooted d d' t t') (hid : id < t.scopes.size) (key : OverlayKey)
    (v : Value φ) :
    (t'.overlay id key v).1 = (t.overlay id key v).1 ∧
      Rerooted d d' (t.overlay id key v).2 (t'.overlay id key v).2 := by
  have hpath : (t'.scope id).path = (t.scope id).path := h.path hid
  have hroot : (t'.scope id).root = (t.scope id).root := h.same Scope.root (fun _ _ => rfl) hid
  have hparent : (t'.scope id).parent = (t.scope id).parent :=
    h.same Scope.parent (fun _ _ => rfl) hid
  have hoverlays : (t'.scope id).overlays = (t.scope id).overlays :=
    h.same Scope.overlays (fun _ _ => rfl) hid
  simp only [ScopeTree.overlay, hpath, hroot, hparent, hoverlays]
  split
  · exact ⟨rfl, h⟩
  · have hins := h.addCache.insert v (t.scope id).path (t.scope id).parent
      ((t.scope id).parent.map fun _ => (t.scope id).root) t.caches.size
    simp only [fst_insert, fst_addCache, scopes_addCache, h.size, h.caches]
    exact ⟨trivial, hins.update (by rw [size_insert]; exact Nat.lt_succ_of_lt hid) fun _ _ => rfl⟩

theorem climb (h : Rerooted d d' t t') (hR : Place.Roots k d d') (hw : t.WellFormed)
    (target : String) (segments : List String) (hid : id < t.scopes.size) (useCache : Bool) :
    t'.climb target segments id useCache = t.climb target segments id useCache := by
  induction id using Nat.strongRecOn generalizing useCache with
  | _ id ih =>
    have hparent : t'.parent? id = t.parent? id := h.same Scope.parent (fun _ _ => rfl) hid
    rw [ScopeTree.climb, ScopeTree.climb, h.known? hid, hparent, covers, covers, h.path hid,
      h.isRepeating hR hid]
    split
    · rfl
    · split
      · rfl
      · split
        · rfl
        · rename_i p hp
          have hlt := hw.parent id hid p hp
          rw [ih p hlt (Nat.lt_trans hlt hid)]

end Rerooted

/-- A search that goes down from the top goes by all segments. -/
theorem climb_top (hw : t.WellFormed) {target : String} {segments below : List String}
    (hid : id < t.scopes.size) {useCache : Bool}
    (h : t.climb target segments id useCache = .descend root below) : below = segments := by
  have hclimb := climbs_climb hw.parent target segments hid useCache
  rw [h] at hclimb
  clear h
  generalize hlanding : Landing.descend root below = landing at hclimb
  induction hclimb with
  | known | itself | reached => cases hlanding
  | top =>
    cases hlanding
    rfl
  | covered _ parent =>
    cases hlanding
    exact absurd (hw.parent _ hid _ parent) (Nat.not_lt_zero _)
  | above _ _ older _ _ ih => exact ih (Nat.lt_trans older hid) hlanding

end ScopeTree

end TextTemplate
