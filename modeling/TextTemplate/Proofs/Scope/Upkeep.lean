import TextTemplate.Proofs.Runs
import TextTemplate.Proofs.Scope.WellFormed

/-!
What reading does to a tree, however it ends. A read may fail on its way, so what it keeps is said of
the session it leaves in either case. Reading scopes only ever freezes functions, makes fields and
makes items, so it keeps whatever these three changes keep.
-/
namespace TextTemplate
variable {φ : Type}

/-- No call gives a function. -/
theorem Host.evaluate_not_function {host : Host φ} {policy : FailurePolicy} {f : φ}
    {context top v : Value φ} {calls calls' : List (Call φ)}
    (h : host.evaluate policy f context top calls = (.ok v, calls')) : v.isFunction = false := by
  simp only [evaluate] at h
  split at h
  · rename_i w _ hw
    obtain ⟨⟨⟩, -⟩ := Prod.mk.inj h
    exact follow_not_function host hw
  · rename_i fault _ _
    simp only [FailurePolicy.settle, Prod.mk.injEq] at h
    split at h
    · simp at h
    · obtain ⟨⟨⟩, -⟩ := h
      rfl

/-- However the run `m` ends from `s`, the tree it leaves extends the one it found, and `I` holds of
the session; what it gives is as `R` says. -/
def Leads {α : Type} (I : Session φ → Prop) (s : Session φ) (m : Run φ α)
    (R : α → Session φ → Prop) : Prop :=
  match m s with
  | .ok a s' => s.tree.Extends s'.tree ∧ I s' ∧ R a s'
  | .error _ s' => s.tree.Extends s'.tree ∧ I s'

namespace Leads

section Rules

variable {α β : Type} {I : Session φ → Prop} {s : Session φ}

theorem pure {a : α} {R : α → Session φ → Prop} (hI : I s) (h : R a s) :
    Leads I s (Pure.pure a) R :=
  ⟨.refl _, hI, h⟩

theorem throw {e : TemplateError} {R : α → Session φ → Prop} (hI : I s) :
    Leads I s (MonadExcept.throw e) R :=
  ⟨.refl _, hI⟩

theorem bind {m : Run φ α} {f : α → Run φ β} {R : α → Session φ → Prop}
    {R' : β → Session φ → Prop} (h : Leads I s m R)
    (hf : ∀ a s', s.tree.Extends s'.tree → I s' → R a s' → Leads I s' (f a) R') :
    Leads I s (m >>= f) R' := by
  simp only [Leads, Bind.bind, EStateM.bind] at h ⊢
  cases hm : m s with
  | error e s' => simpa only [hm] using h
  | ok a s' =>
    simp only [hm] at h ⊢
    obtain ⟨he, hI, hR⟩ := h
    have hrest := hf a s' he hI hR
    simp only [Leads] at hrest
    cases hfa : f a s' with
    | error e s'' =>
      simp only [hfa] at hrest ⊢
      exact ⟨he.trans hrest.1, hrest.2⟩
    | ok b s'' =>
      simp only [hfa] at hrest ⊢
      exact ⟨he.trans hrest.1, hrest.2⟩

/-- A run that looks at the tree first. -/
theorem look {f : ScopeTree φ → Run φ α} {R : α → Session φ → Prop}
    (h : Leads I s (f s.tree) R) : Leads I s (Run.tree >>= f) R := h

/-- A step of the tree. -/
theorem step {g : ScopeTree φ → α × ScopeTree φ} {R : α → Session φ → Prop}
    (he : s.tree.Extends (g s.tree).2) (hI : I { s with tree := (g s.tree).2 })
    (hR : R (g s.tree).1 { s with tree := (g s.tree).2 }) : Leads I s (Run.onTree g) R :=
  ⟨he, hI, hR⟩

theorem weaken {m : Run φ α} {R R' : α → Session φ → Prop} (h : Leads I s m R)
    (hR : ∀ a s', s.tree.Extends s'.tree → I s' → R a s' → R' a s') : Leads I s m R' := by
  simp only [Leads] at h ⊢
  cases hm : m s with
  | error e s' => simpa only [hm] using h
  | ok a s' =>
    simp only [hm] at h ⊢
    exact ⟨h.1, h.2.1, hR a s' h.1 h.2.1 h.2.2⟩

theorem left {m : Run φ α} {R : α → Session φ → Prop} (h : Leads I s m R) : I (m.left s) := by
  simp only [Leads, Run.left] at h ⊢
  cases hm : m s with
  | ok a s' =>
    simp only [hm] at h ⊢
    exact h.2.1
  | error e s' =>
    simp only [hm] at h ⊢
    exact h.2

/-- A run that does not fail. -/
theorem of_ok {m : Run φ α} {R : α → Session φ → Prop} {a : α} {s' : Session φ}
    (h : Leads I s m R) (hm : m s = .ok a s') : s.tree.Extends s'.tree ∧ I s' ∧ R a s' := by
  simpa only [Leads, hm] using h

/-- What a run gives is what it gives. -/
theorem exact {m : Run φ α} {R : α → Session φ → Prop} (h : Leads I s m R) :
    Leads I s m fun a s' => R a s' ∧ m s = .ok a s' := by
  simp only [Leads] at h ⊢
  cases hm : m s with
  | error e s' => simpa only [hm] using h
  | ok a s' =>
    simp only [hm] at h ⊢
    exact ⟨h.1, h.2.1, h.2.2, trivial⟩

/-- One invariant more. -/
theorem also {I' : Session φ → Prop} {m : Run φ α} {R : α → Session φ → Prop} (h : Leads I s m R)
    (h' : I' (m.left s)) : Leads I' s m R := by
  simp only [Leads, Run.left] at h h' ⊢
  cases hm : m s with
  | error e s' =>
    simp only [hm] at h h' ⊢
    exact ⟨h.1, h'⟩
  | ok a s' =>
    simp only [hm] at h h' ⊢
    exact ⟨h.1, h', h.2.2⟩

/-- A function called has no hold on the tree. -/
theorem evaluate {host : Host φ} {policy : FailurePolicy} {f : φ} {context top : Value φ}
    {R : Value φ → Session φ → Prop} (hI : ∀ calls, I { s with calls })
    (hR : ∀ v calls, host.evaluate policy f context top s.calls = (.ok v, calls) →
      R v { s with calls }) :
    Leads I s (Run.evaluate host policy f context top) R := by
  simp only [Leads, Run.evaluate]
  cases h : host.evaluate policy f context top s.calls with
  | mk r calls =>
    cases r with
    | error e => exact ⟨.refl _, hI calls⟩
    | ok v => exact ⟨.refl _, hI calls, hR v calls h⟩

end Rules

end Leads

/-- What well-formed trees have and reading keeps. -/
structure Upheld (J : ScopeTree φ → Prop) : Prop where
  wellFormed : ∀ {t}, J t → t.WellFormed
  settles : ∀ {t t' id f v}, J t → id < t.scopes.size → (t.scope id).content = .pending f →
    v.isFunction = false → t.Settles t' id v → J t'
  field : ∀ {t t' id name w}, J t → id < t.scopes.size → t.Ready id →
    (t.scope id).fields.lookup name = none → t.AddsField t' id name w → J t'
  item : ∀ {t t' id index v}, J t → id < t.scopes.size → t.Ready id →
    t.AddsOverlay t' id (.item index) v → J t'

theorem upheld_wellFormed : Upheld (ScopeTree.WellFormed (φ := φ)) where
  wellFormed h := h
  settles hw hid hf _ hs := hs.wellFormed hw hid hf
  field hw hid _ _ ha := ha.wellFormed hw hid
  item hw hid _ ha := ha.wellFormed hw hid (by simp [OverlayKey.item])

namespace Run

variable {J : ScopeTree φ → Prop} {host : Host φ} {policy : FailurePolicy} {s : Session φ}
  {id : ScopeId}

theorem leads_force (hJ : Upheld J) (hs : J s.tree) (hid : id < s.tree.scopes.size) :
    Leads (fun s => J s.tree) s (force host policy id) fun _ s' => s'.tree.Ready id := by
  refine .look ?_
  cases hc : (s.tree.scope id).content with
  | ready v => exact .pure hs ⟨v, hc⟩
  | pending f =>
    refine (Leads.evaluate (R := fun v s' => s'.tree = s.tree ∧ v.isFunction = false) (fun _ => hs)
      fun v _ hv => ⟨rfl, Host.evaluate_not_function hv⟩).bind fun v s' _ _ ⟨ht, hv⟩ => ?_
    have hset := ScopeTree.settles hid v
    have hkept := hset.kept hc ((hJ.wellFormed hs).pending id hid f hc)
    exact ⟨ht ▸ hkept, hJ.settles hs hid hc hv hset, v, by rw [hset.self]⟩

theorem leads_value (hJ : Upheld J) (hs : J s.tree) (hid : id < s.tree.scopes.size) :
    Leads (fun s => J s.tree) s (value host policy id) fun v s' =>
      s'.tree.Ready id ∧ s'.tree.data id = v :=
  (leads_force hJ hs hid).bind fun _ _ _ hs' hr => .look (.pure hs' ⟨hr, rfl⟩)

/-- A field of a scope is in the cache of the scope. -/
theorem leads_field (hJ : Upheld J) (hs : J s.tree) (hid : id < s.tree.scopes.size) (name : String)
    (skipCache : Bool) :
    Leads (fun s => J s.tree) s (field host policy id name skipCache) fun r s' =>
      ∀ c ∈ r, c < s'.tree.scopes.size ∧ (s'.tree.scope c).cache = (s'.tree.scope id).cache := by
  refine (leads_force hJ hs hid).bind fun _ s' he hs' hready => ?_
  have hid' := he.lt hid
  have hw := hJ.wellFormed hs'
  have hcase := ScopeTree.field_cases hid' name skipCache
  generalize hr : s'.tree.field id name skipCache = r at hcase
  refine .step ?_ ?_ ?_ <;> rw [hr]
  · cases hcase with
    | made _ _ _ adds => exact adds.grows.kept
    | _ => exact .refl _
  · cases hcase with
    | made _ _ _ adds unmade => exact hJ.field hs' hid' hready unmade adds
    | _ => exact hs'
  · cases hcase with
    | array | absent => exact fun _ hc => by cases hc
    | cached _ known =>
      rintro c ⟨⟩
      exact hw.known known
    | itself =>
      rintro c ⟨⟩
      exact ⟨hid', rfl⟩
    | child _ _ there =>
      rintro c ⟨⟩
      have hc := hw.fields id hid' name _ (ScopeTree.mem_of_lookup there)
      exact ⟨hc.lt, hc.cache⟩
    | made _ _ _ adds =>
      rintro c ⟨⟩
      have hc := adds.fieldOf hid'
      exact ⟨hc.lt, hc.cache⟩

theorem leads_overlay (hJ : Upheld J) (hs : J s.tree) (hid : id < s.tree.scopes.size)
    (key : OverlayKey) (v : Value φ) (hadd : ∀ t', s.tree.AddsOverlay t' id key v → J t') :
    Leads (fun s => J s.tree) s (onTree fun t => t.overlay id key v) fun o s' =>
      o < s'.tree.scopes.size := by
  have hcase := ScopeTree.overlay_cases hid key v
  generalize hr : s.tree.overlay id key v = r at hcase
  refine .step ?_ ?_ ?_ <;> rw [hr]
  · cases hcase with
    | there => exact .refl _
    | made _ adds => exact adds.grows.kept
  · cases hcase with
    | there => exact hs
    | made _ adds => exact hadd _ adds
  · cases hcase with
    | there there =>
      exact ((hJ.wellFormed hs).overlays id hid _ _ (ScopeTree.mem_of_lookup there)).lt
    | made _ adds => exact adds.grows.made_lt

theorem leads_item (hJ : Upheld J) (hs : J s.tree) (hid : id < s.tree.scopes.size) (index : Nat) :
    Leads (fun s => J s.tree) s (item host policy id index) fun o s' =>
      o < s'.tree.scopes.size := by
  refine .look ?_
  split
  · rename_i o ho
    exact .pure hs ((hJ.wellFormed hs).overlays id hid _ _ (ScopeTree.mem_of_lookup ho)).lt
  · have hmake : ∀ v s', s.tree.Extends s'.tree → J s'.tree → s'.tree.Ready id →
        Leads (fun s => J s.tree) s' (onTree fun t => t.overlay id (.item index) v) fun o s' =>
          o < s'.tree.scopes.size := fun v s' he hs' hr =>
      leads_overlay hJ hs' (he.lt hid) _ v fun _ => hJ.item hs' (he.lt hid) hr
    dsimp only
    split
    · rename_i items hitems
      refine hmake _ s (.refl _) hs ?_
      cases hc : (s.tree.scope id).content with
      | ready v => exact ⟨v, hc⟩
      | pending f => simp [ScopeTree.data, hc, Content.data] at hitems
    · exact (leads_value hJ hs hid).bind fun v s' he hs' hr => hmake v s' he hs' hr.1

/-- All that is found on the way down is in the cache of the scope one starts from. -/
theorem leads_descend (hJ : Upheld J) (hs : J s.tree) (hid : id < s.tree.scopes.size)
    (target joined : String) (segments : List String) :
    Leads (fun s => J s.tree) s (descend host policy target joined segments id) fun r s' =>
      ∀ c ∈ r, c < s'.tree.scopes.size ∧ (s'.tree.scope c).cache = (s'.tree.scope id).cache := by
  induction segments generalizing s id joined with
  | nil => exact .pure hs fun _ hc => by cases hc
  | cons segment segments ih =>
    rw [descend]
    refine (leads_field hJ hs hid _ true).bind fun r s' he hs' hr => ?_
    cases r with
    | none => exact ih hs' (he.lt hid) _
    | some c =>
      obtain ⟨hlt, hcache⟩ := hr c rfl
      dsimp only
      split
      · refine .pure hs' ?_
        rintro _ ⟨⟩
        exact ⟨he.lt hid, rfl⟩
      · refine .look ?_
        split
        · refine .pure hs' ?_
          rintro _ ⟨⟩
          exact ⟨hlt, hcache⟩
        · refine (ih hs' hlt _).weaken fun r' s'' he' hs'' hr' c' hc' => ?_
          obtain ⟨hlt', hcache'⟩ := hr' c' hc'
          refine ⟨hlt', hcache'.trans ?_⟩
          rw [he'.cache c hlt, he'.cache id (he.lt hid), hcache]

/-- A search that starts in the first cache stays in it. -/
theorem leads_search (hJ : Upheld J) (hs : J s.tree) (hid : id < s.tree.scopes.size) (key : Key) :
    Leads (fun s => J s.tree) s (search host policy id key) fun r s' =>
      ∀ c ∈ r, c < s'.tree.scopes.size ∧
        ((s'.tree.scope id).cache = 0 → (s'.tree.scope c).cache = 0) := by
  have hw := hJ.wellFormed hs
  have hself : ∀ c ∈ some id, c < s.tree.scopes.size ∧
      ((s.tree.scope id).cache = 0 → (s.tree.scope c).cache = 0) := by
    rintro c ⟨⟩
    exact ⟨hid, fun h0 => h0⟩
  -- What is found below `start` is in its cache.
  have hdown : ∀ {start target segments}, start < s.tree.scopes.size →
      ((s.tree.scope id).cache = 0 → (s.tree.scope start).cache = 0) →
      Leads (fun s => J s.tree) s (descend host policy target "" segments start) fun r s' =>
        ∀ c ∈ r, c < s'.tree.scopes.size ∧
          ((s'.tree.scope id).cache = 0 → (s'.tree.scope c).cache = 0) := by
    intro start target segments hlt hstart
    refine (leads_descend hJ hs hlt target "" segments).weaken fun r s' he hs' hr c hc => ?_
    obtain ⟨hclt, hcache⟩ := hr c hc
    rw [hcache, he.cache id hid, he.cache start hlt]
    exact ⟨hclt, hstart⟩
  rw [search]
  refine .look ?_
  split
  · dsimp only
    split
    · exact .pure hs hself
    · split
      · rename_i hit hknown
        obtain ⟨hlt, hcache⟩ := hw.known hknown
        refine .pure hs ?_
        rintro c ⟨⟩
        exact ⟨hlt, fun h0 => hcache.trans h0⟩
      · split
        · exact .pure hs hself
        · exact hdown hid fun h0 => h0
  · have hland := ScopeTree.climb_shared hw key.text key.segments hid true
    split
    · rename_i hit hclimb
      rw [hclimb] at hland
      cases hland with
      | found hlt hcache =>
        refine .pure hs ?_
        rintro c ⟨⟩
        exact ⟨hlt, hcache⟩
    · rename_i start segments hclimb
      rw [hclimb] at hland
      cases hland with
      | descend hlt hcache => exact hdown hlt hcache

end Run

end TextTemplate
