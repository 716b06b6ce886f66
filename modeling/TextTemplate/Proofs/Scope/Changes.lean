import TextTemplate.Proofs.Scope.Growth

/-!
What each operation can do to a scope tree. A field or an overlay that is asked for is there already,
or one scope is made for it; a function called for its value freezes one content. What all trees have
in common is read off these few cases. So is where a climb lands: it ends in one of a few ways, after
steps up to older scopes.
-/
namespace TextTemplate
variable {φ : Type}

namespace ScopeTree

variable {t t' : ScopeTree φ}

/-- A scope as it is when it is made. -/
def fresh (v : Value φ) (path : String) (parent : Option ScopeId) (root : ScopeId) (cache : Nat) :
    Scope φ where
  path
  content := .ofValue v
  function := match v with
    | .function f => some f
    | _ => none
  parent
  root
  cache
  fields := []
  overlays := []

theorem Extends.of_scopes (hsize : t.scopes.size ≤ t'.scopes.size)
    (hcaches : t.caches.size ≤ t'.caches.size)
    (h : ∀ id < t.scopes.size, ∃ fields overlays,
      t'.scope id = { t.scope id with fields, overlays }) : t.Extends t' where
  size_le := hsize
  path id hid := by obtain ⟨f, o, he⟩ := h id hid; simp [ScopeTree.path, he]
  parent id hid := by obtain ⟨f, o, he⟩ := h id hid; simp [parent?, he]
  function id hid := by obtain ⟨f, o, he⟩ := h id hid; simp [function?, he]
  bound id hid := by
    obtain ⟨f, o, he⟩ := h id hid
    simp [ScopeTree.bound, function?, ScopeTree.data, he]
  root id hid := by obtain ⟨f, o, he⟩ := h id hid; simp [he]
  cache id hid := by obtain ⟨f, o, he⟩ := h id hid; simp [he]
  caches_le := hcaches
  ready id hid v hv := by obtain ⟨f, o, he⟩ := h id hid; simpa [he] using hv

theorem bound_of_fresh {i : ScopeId} {v : Value φ} {path : String} {parent : Option ScopeId}
    {root cache : Nat} (h : t.scope i = fresh v path parent root cache) : t.bound i = v := by
  cases v <;> simp [bound, function?, ScopeTree.data, h, fresh, Content.ofValue, Content.data]

theorem content_of_fresh {i : ScopeId} {v : Value φ} {path : String} {parent : Option ScopeId}
    {root cache : Nat} (h : t.scope i = fresh v path parent root cache) (hv : v.isFunction = false) :
    (t.scope i).content = .ready v := by
  cases v <;> simp_all [fresh, Content.ofValue, Value.isFunction]

/-- One scope is made, and the scope `id` takes note of it. -/
structure Grows (t t' : ScopeTree φ) (id : ScopeId) (made : Scope φ) : Prop where
  size : t'.scopes.size = t.scopes.size + 1
  made : t'.scope t.scopes.size = made
  self : ∃ fields overlays, t'.scope id = { t.scope id with fields, overlays }
  others : ∀ i < t.scopes.size, i ≠ id → t'.scope i = t.scope i
  caches_le : t.caches.size ≤ t'.caches.size

namespace Grows
variable {id : ScopeId} {made : Scope φ}

theorem kept (h : t.Grows t' id made) : t.Extends t' := by
  refine .of_scopes (by rw [h.size]; exact Nat.le_succ _) h.caches_le fun i hi => ?_
  by_cases hid : i = id
  · subst hid
    exact h.self
  · exact ⟨_, _, h.others i hi hid⟩

theorem made_lt (h : t.Grows t' id made) : t.scopes.size < t'.scopes.size := by
  rw [h.size]
  exact Nat.lt_succ_self _

/-- A scope is one of those that were there, or the one that is made. -/
theorem older (h : t.Grows t' id made) {i : ScopeId} (hi : i < t'.scopes.size) :
    i < t.scopes.size ∨ i = t.scopes.size := by
  rw [h.size] at hi
  exact Nat.lt_succ_iff_lt_or_eq.1 hi

/-- The new scope stands below its parent. -/
theorem place {v : Value φ} {path : String} {p : ScopeId} {root cache : Nat}
    (h : t.Grows t' id (fresh v path (some p) root cache)) (hp : p < t.scopes.size) :
    t'.place t.scopes.size = ⟨⟨path, v⟩, (t.place p).spot :: (t.place p).above⟩ := by
  have hparent : t'.parent? t.scopes.size = some p := by simp [parent?, h.made, fresh]
  have habove := above_of_parent hparent hp
  rw [ScopeTree.place, habove, h.kept.place_eq hp, bound_of_fresh h.made]
  simp [ScopeTree.path, h.made, fresh]

theorem place_orphan {v : Value φ} {path : String} {root cache : Nat}
    (h : t.Grows t' id (fresh v path none root cache)) :
    t'.place t.scopes.size = ⟨⟨path, v⟩, []⟩ := by
  rw [ScopeTree.place, above_of_orphan (by simp [parent?, h.made, fresh]), bound_of_fresh h.made]
  simp [ScopeTree.path, h.made, fresh]

end Grows

section Cases

variable {id : ScopeId}

/-- One scope is made, for the field `name` of the scope `id`, over `w`. -/
structure AddsField (t t' : ScopeTree φ) (id : ScopeId) (name : String) (w : Value φ) : Prop where
  grows : t.Grows t' id
    (fresh w (pathStem (t.path id) ++ name) (some id) (t.scope id).root (t.scope id).cache)
  self : t'.scope id = { t.scope id with fields := (name, t.scopes.size) :: (t.scope id).fields }
  caches : t'.caches.size = t.caches.size
  cached : ∀ c e, e ∈ t'.caches.getD c [] → e ∈ t.caches.getD c [] ∨
    (c = (t.scope id).cache ∧ e = (pathStem (t.path id) ++ name, t.scopes.size))

/-- What asking the scope `id` for a field can come to. -/
inductive FieldCase (t : ScopeTree φ) (id : ScopeId) (name : String) (skipCache : Bool) :
    Option ScopeId × ScopeTree φ → Prop where
  | cached {path : String} {hit : ScopeId} (looks : skipCache = false)
      (known : t.known? id path = some hit) : FieldCase t id name skipCache (some hit, t)
  | array (repeats : (t.data id).isArray = true) : FieldCase t id name skipCache (none, t)
  | itself (single : (t.data id).isArray = false) (self : isSelfKey name = true) :
      FieldCase t id name skipCache (some id, t)
  | absent (single : (t.data id).isArray = false) (other : isSelfKey name = false)
      (lacks : (t.data id).get? name = none) : FieldCase t id name skipCache (none, t)
  | child {c : ScopeId} (single : (t.data id).isArray = false) (other : isSelfKey name = false)
      (there : (t.scope id).fields.lookup name = some c) : FieldCase t id name skipCache (some c, t)
  | made {w : Value φ} {t' : ScopeTree φ} (single : (t.data id).isArray = false)
      (other : isSelfKey name = false) (holds : (t.data id).get? name = some w)
      (adds : t.AddsField t' id name w) (unmade : (t.scope id).fields.lookup name = none) :
      FieldCase t id name skipCache (some t.scopes.size, t')

theorem addsField (hid : id < t.scopes.size) (name : String) (w : Value φ) :
    t.AddsField (((t.insert w (pathStem (t.path id) ++ name) (some id) (some (t.scope id).root)
      (t.scope id).cache).2.update id fun s =>
        { s with fields := (name, t.scopes.size) :: s.fields }).remember (t.scope id).cache
          (pathStem (t.path id) ++ name) t.scopes.size) id name w := by
  have hself : (t.insert w (pathStem (t.path id) ++ name) (some id) (some (t.scope id).root)
      (t.scope id).cache).2.scope id = t.scope id := scope_insert_of_lt hid ..
  refine ⟨⟨?_, ?_, ?_, fun i hi hne => ?_, ?_⟩, ?_, ?_, fun c e he => ?_⟩
  · simp [size_insert]
  · rw [scope_remember, scope_update_of_ne (Nat.ne_of_lt hid), scope_insert_self]
    rfl
  · refine ⟨(name, t.scopes.size) :: (t.scope id).fields, (t.scope id).overlays, ?_⟩
    rw [scope_remember, scope_update_self (by rw [size_insert]; exact Nat.lt_succ_of_lt hid), hself]
  · rw [scope_remember, scope_update_of_ne hne.symm, scope_insert_of_lt hi]
  · simp
  · rw [scope_remember, scope_update_self (by rw [size_insert]; exact Nat.lt_succ_of_lt hid), hself]
  · simp
  · rcases mem_caches_remember he with ⟨rfl, rfl⟩ | hold
    · exact .inr ⟨rfl, rfl⟩
    · exact .inl (by simpa using hold)

theorem field_cases (hid : id < t.scopes.size) (name : String) (skipCache : Bool) :
    FieldCase t id name skipCache (t.field id name skipCache) := by
  simp only [ScopeTree.field]
  split
  · rename_i hit hknown
    cases skipCache with
    | true => cases hknown
    | false => exact .cached rfl hknown
  · split
    · rename_i hrep
      exact .array hrep
    · rename_i hrep
      have hsingle : (t.data id).isArray = false := Bool.eq_false_iff.2 hrep
      split
      · rename_i hself
        exact .itself hsingle hself
      · rename_i hself
        have hother : isSelfKey name = false := Bool.eq_false_iff.2 hself
        split
        · rename_i c hc
          exact .child hsingle hother hc
        · rename_i hunmade
          split
          · rename_i hnone
            exact .absent hsingle hother hnone
          · rename_i w hw
            exact .made hsingle hother hw (addsField hid name w) hunmade

/-- One scope is made, in the place of the scope `id`, over `v`. -/
structure AddsOverlay (t t' : ScopeTree φ) (id : ScopeId) (key : OverlayKey) (v : Value φ) :
    Prop where
  grows : t.Grows t' id (fresh v (t.path id) (t.parent? id)
    (((t.parent? id).map fun _ => (t.scope id).root).getD t.scopes.size) t.caches.size)
  self : t'.scope id = { t.scope id with
    overlays := (key, t.scopes.size) :: (t.scope id).overlays }
  caches : t'.caches.size = t.caches.size + 1
  cached : ∀ c e, e ∈ t'.caches.getD c [] → e ∈ t.caches.getD c []

/-- What asking the scope `id` for an overlay can come to. -/
inductive OverlayCase (t : ScopeTree φ) (id : ScopeId) (key : OverlayKey) (v : Value φ) :
    ScopeId × ScopeTree φ → Prop where
  | there {o : ScopeId} (there : (t.scope id).overlays.lookup key = some o) :
      OverlayCase t id key v (o, t)
  | made {t' : ScopeTree φ} (unmade : (t.scope id).overlays.lookup key = none)
      (adds : t.AddsOverlay t' id key v) : OverlayCase t id key v (t.scopes.size, t')

theorem overlay_cases (hid : id < t.scopes.size) (key : OverlayKey) (v : Value φ) :
    OverlayCase t id key v (t.overlay id key v) := by
  simp only [ScopeTree.overlay]
  split
  · rename_i o ho
    exact .there ho
  · rename_i hnone
    have hold : ∀ i < t.scopes.size, (t.addCache.2.insert v (t.scope id).path (t.scope id).parent
        ((t.scope id).parent.map fun _ => (t.scope id).root) t.caches.size).2.scope i = t.scope i :=
      fun i hi => scope_insert_of_lt (t := t.addCache.2) hi ..
    have hlt : id < (t.addCache.2.insert v (t.scope id).path (t.scope id).parent
        ((t.scope id).parent.map fun _ => (t.scope id).root) t.caches.size).2.scopes.size := by
      rw [size_insert]
      exact Nat.lt_succ_of_lt hid
    refine .made hnone ⟨⟨?_, ?_, ?_, fun i hi hne => ?_, ?_⟩, ?_, ?_, fun c e he => ?_⟩
    · simp [size_insert]
    · rw [scope_update_of_ne (Nat.ne_of_lt hid)]
      exact scope_insert_self t.addCache.2 ..
    · exact ⟨(t.scope id).fields, (key, t.scopes.size) :: (t.scope id).overlays, by
        rw [fst_addCache, scope_update_self hlt, hold id hid]; rfl⟩
    · rw [fst_addCache, scope_update_of_ne hne.symm, hold i hi]
    · simp
    · rw [fst_addCache, scope_update_self hlt, hold id hid]
      rfl
    · simp
    · exact mem_caches_addCache (by simpa using he)

/-- The content of the scope `id` becomes `v`. -/
structure Settles (t t' : ScopeTree φ) (id : ScopeId) (v : Value φ) : Prop where
  size : t'.scopes.size = t.scopes.size
  self : t'.scope id = { t.scope id with content := .ready v }
  others : ∀ i, i ≠ id → t'.scope i = t.scope i
  caches : t'.caches.size = t.caches.size
  cached : ∀ c e, e ∈ t'.caches.getD c [] → e ∈ t.caches.getD c [] ∨
    (c = (t.scope id).cache ∧ e = (t.path id, id))

theorem settles (hid : id < t.scopes.size) (v : Value φ) : t.Settles (t.settle id v) id v := by
  have hscopes : (if v.isArray then t else t.remember (t.scope id).cache (t.scope id).path id).scopes
      = t.scopes := by
    split <;> rfl
  have hscope : ∀ i, (if v.isArray then t
      else t.remember (t.scope id).cache (t.scope id).path id).scope i = t.scope i := by
    intro i
    split <;> rfl
  refine ⟨?_, ?_, fun i hi => ?_, ?_, fun c e he => ?_⟩
  · simp only [settle, size_update, hscopes]
  · simp only [settle]
    rw [scope_update_self (by rw [hscopes]; exact hid), hscope]
  · simp only [settle]
    rw [scope_update_of_ne hi.symm, hscope]
  · simp only [settle, caches_update]
    split <;> simp
  · simp only [settle, caches_update] at he
    split at he
    · exact .inl he
    · exact (mem_caches_remember he).symm

namespace Settles
variable {v : Value φ}

/-- All else about a scope is as it was. -/
theorem same (h : t.Settles t' id v) {α : Type} (g : Scope φ → α)
    (hg : ∀ s c, g { s with content := c } = g s) (i : ScopeId) : g (t'.scope i) = g (t.scope i) := by
  by_cases hi : i = id
  · subst hi
    rw [h.self, hg]
  · rw [h.others i hi]

/-- A tree in which a function is called for its value is kept. -/
theorem kept (h : t.Settles t' id v) {f : φ} (hf : (t.scope id).content = .pending f)
    (hfun : t.function? id = some f) : t.Extends t' where
  size_le := Nat.le_of_eq h.size.symm
  path i _ := h.same Scope.path (fun _ _ => rfl) i
  parent i _ := h.same Scope.parent (fun _ _ => rfl) i
  function i _ := h.same Scope.function (fun _ _ => rfl) i
  bound i _ := by
    by_cases hi : i = id
    · subst hi
      have hfun' : t'.function? i = some f := (h.same Scope.function (fun _ _ => rfl) i).trans hfun
      rw [bound, bound, hfun, hfun']
    · rw [bound, bound, function?, function?, ScopeTree.data, ScopeTree.data, h.others i hi]
  root i _ := h.same Scope.root (fun _ _ => rfl) i
  cache i _ := h.same Scope.cache (fun _ _ => rfl) i
  caches_le := Nat.le_of_eq h.caches.symm
  ready i _ w hw := by
    by_cases hi : i = id
    · subst hi
      rw [hf] at hw
      cases hw
    · rw [h.others i hi, hw]

end Settles

end Cases

theorem newAt_root (data v : Value φ) : newAt data "" v = (ScopeTree.root, new v) := rfl

/-- Beside the whole data, one more scope is made. -/
theorem newAt_grows (data v : Value φ) {path : String} (hpath : path ≠ "") :
    (newAt data path v).1 = 1 ∧ (newAt data path v).2.caches.size = 2 ∧
      (new data).Grows (newAt data path v).2 ScopeTree.root
        (fresh v path (some ScopeTree.root) ScopeTree.root 1) ∧
      (newAt data path v).2.scope ScopeTree.root = (new data).scope ScopeTree.root ∧
      ∀ c, (newAt data path v).2.caches.getD c [] = [] := by
  have hroot : (newAt data path v).2.scope ScopeTree.root = (new data).scope ScopeTree.root := by
    simp only [newAt, String.isEmpty_iff, hpath, if_false]
    exact scope_insert_of_lt (t := (new data).addCache.2) Nat.zero_lt_one ..
  refine ⟨by simp [newAt, hpath]; rfl, by simp [newAt, hpath]; rfl, ⟨?_, ?_, ⟨_, _, hroot⟩, ?_, ?_⟩,
    hroot, fun c => ?_⟩
  · simp only [newAt, String.isEmpty_iff, hpath, if_false]
    exact size_insert ..
  · simp only [newAt, String.isEmpty_iff, hpath, if_false]
    exact scope_insert_self (new data).addCache.2 ..
  · intro i hi hne
    exact absurd (Nat.lt_one_iff.1 hi) hne
  · simp [newAt, hpath]
  · simp only [newAt, String.isEmpty_iff, hpath, if_false]
    rcases c with _ | _ | c <;>
      simp [new, insert, empty, addCache, Array.getD_eq_getD_getElem?]

/-- What a climb from a scope comes to: a scope that is known, or one with the path that is looked for,
or else the nearest one that covers it, with the segments that are left. -/
inductive Climbs (t : ScopeTree φ) (target : String) (segments : List String) :
    ScopeId → Landing → Prop where
  | known {id hit : ScopeId} (known : t.known? id target = some hit) :
      Climbs t target segments id (.found hit)
  | itself {id : ScopeId} (same : segments = [] ∨ t.path id = target) :
      Climbs t target segments id (.found id)
  | top {id : ScopeId} (other : t.path id ≠ target) (orphan : t.parent? id = none) :
      Climbs t target segments id (.descend id segments)
  | reached {id p : ScopeId} (other : t.path id ≠ target) (parent : t.parent? id = some p)
      (covers : t.covers id target = true) (rest : segments.drop (pathDepth (t.path id)) = []) :
      Climbs t target segments id (.found id)
  | covered {id p : ScopeId} (other : t.path id ≠ target) (parent : t.parent? id = some p)
      (covers : t.covers id target = true) (rest : segments.drop (pathDepth (t.path id)) ≠ []) :
      Climbs t target segments id (.descend id (segments.drop (pathDepth (t.path id))))
  | above {id p : ScopeId} {landing : Landing} (other : t.path id ≠ target)
      (parent : t.parent? id = some p) (older : p < id) (covers : t.covers id target = false)
      (up : Climbs t target segments p landing) : Climbs t target segments id landing

/-- Where each parent is older than its child, a climb never stops short. -/
theorem climbs_climb (hparent : ∀ id < t.scopes.size, ∀ p, t.parent? id = some p → p < id)
    (target : String) (segments : List String) {id : ScopeId} (hid : id < t.scopes.size)
    (useCache : Bool) : t.Climbs target segments id (t.climb target segments id useCache) := by
  induction id using Nat.strongRecOn generalizing useCache with
  | _ id ih =>
    rw [climb]
    split
    · rename_i hit known
      cases useCache with
      | false => cases known
      | true => exact .known known
    · split
      · rename_i same
        exact .itself (by simpa using same)
      · rename_i hsame
        have other : t.path id ≠ target := fun h => hsame (by simp [h])
        split
        · rename_i orphan
          exact .top other orphan
        · rename_i p parent
          have older := hparent id hid p parent
          split
          · rename_i covers
            dsimp only
            split
            · rename_i rest
              exact .reached other parent covers (List.isEmpty_iff.1 rest)
            · rename_i rest
              exact .covered other parent covers (by simpa using rest)
          · rename_i covers
            exact .above other parent older (Bool.eq_false_iff.2 covers)
              (ih p older (Nat.lt_trans older hid) _)

end ScopeTree

end TextTemplate
