import TextTemplate.Proofs.Roots.Templates

/-!
Bindings in a tree with one top. Resolving a binding, passing a value through functions and showing it
keep the tree rooted, and every call is given the whole data. A section that spares the top is read
from a scope below it.
-/
namespace TextTemplate
variable {φ : Type}

namespace Run

variable {data : Value φ} {env : Env φ} {s : Session φ} {scope : ScopeId}
  {overlays : List ScopeId} {inside : Bool}

theorem rooted_findScope {host : Host φ} {policy : FailurePolicy} (hs : s.Rooted data)
    (hscope : scope < s.tree.scopes.size) (hover : ∀ o ∈ overlays, Below s.tree o) {key : Key}
    (hk : key.Formed) (hin : key.inContext = true → inside = true → scope ≠ ScopeTree.root) :
    Leads (Session.Rooted data) s (findScope host policy scope overlays key) fun r s' =>
      ∀ c ∈ r, c < s'.tree.scopes.size ∧
        (key.leadsBelow inside = true → c ≠ ScopeTree.root) := by
  refine .look ?_
  split
  · rename_i o ho
    split at ho
    · cases ho
    · rename_i habsolute
      exact rooted_search hs (hover o (List.mem_of_find?_eq_some ho)).1 hk
        fun hc => absurd hc habsolute
  · exact rooted_search hs hscope hk hin

theorem rooted_findChain {host : Host φ} {policy : FailurePolicy} (hs : s.Rooted data)
    (hscope : scope < s.tree.scopes.size) (hover : ∀ o ∈ overlays, Below s.tree o)
    {links : List Link} (hk : ∀ link ∈ links, link.key.Formed) :
    Leads (Session.Rooted data) s (findChain host policy scope overlays links) fun chain s' =>
      ∀ c ∈ chain, c.1 < s'.tree.scopes.size := by
  induction links generalizing s with
  | nil => exact .pure hs nofun
  | cons link links ih =>
    obtain ⟨hlink, hlinks⟩ := List.forall_mem_cons.1 hk
    refine (rooted_findScope hs hscope hover hlink fun _ h => absurd h Bool.false_ne_true).bind
      fun found s' he hs' hfound => ?_
    cases found with
    | none => exact .throw hs'
    | some id =>
      refine .look ?_
      split
      · exact .throw hs'
      · have hover' : ∀ o ∈ overlays, Below s'.tree o :=
          fun o ho => ⟨he.lt (hover o ho).1, (hover o ho).2⟩
        refine (ih hs' (he.lt hscope) hover' hlinks).bind fun chain s'' he' hs'' hchain =>
          .pure hs'' fun c hc => ?_
        rcases List.mem_cons.1 hc with rfl | hc
        · exact he'.lt (hfound id rfl).1
        · exact hchain c hc

theorem rooted_passThrough (hs : s.Rooted data) (policy : FailurePolicy)
    (steps : List (φ × Link)) (v : Value φ) :
    Leads (Session.Rooted data) s (passThrough env policy steps v) fun _ s' =>
      s'.tree = s.tree := by
  induction steps generalizing s v with
  | nil => exact .pure hs rfl
  | cons step steps ih =>
    refine .look ?_
    refine (rooted_evaluate hs _ _ hs.tree.data_root).bind fun w s' _ hs' ⟨ht, _⟩ => ?_
    exact (ih hs' _).weaken fun _ _ _ _ ht' => ht'.trans ht

/-- What is known of a resolved binding in a tree with one top. -/
structure Placed (data : Value φ) (t : ScopeTree φ) (b : Binding) (inside : Bool)
    (r : Resolution φ) : Prop where
  scope : r.scope < t.scopes.size
  chain : ∀ c ∈ r.chain, c.1 < t.scopes.size
  below : b.key.leadsBelow inside = true → r.scope ≠ ScopeTree.root
  plain : b.links = [] → r.isDynamic = r.isRepeating ∧
    (r.scope = ScopeTree.root → r.isRepeating = data.isArray)

theorem rooted_resolve (hs : s.Rooted data) (hscope : scope < s.tree.scopes.size)
    (hover : ∀ o ∈ overlays, Below s.tree o) {b : Binding} (hb : b.Formed)
    (hin : b.key.inContext = true → inside = true → scope ≠ ScopeTree.root) :
    Leads (Session.Rooted data) s (resolve env b scope overlays) fun r s' =>
      ∀ x ∈ r, Placed data s'.tree b inside x := by
  refine (rooted_findScope hs hscope hover (hb _ List.mem_cons_self) hin).bind
    fun found s₁ he₁ hs₁ hfound => ?_
  cases found with
  | none => exact .pure hs₁ nofun
  | some id =>
    obtain ⟨hid, hbelow⟩ := hfound id rfl
    dsimp only
    split
    · refine (rooted_value hs₁ hid).bind fun v s₂ he₂ hs₂ ⟨_, hv⟩ => .pure hs₂ ?_
      rintro _ ⟨⟩
      exact {
        scope := he₂.lt hid
        chain := nofun
        below := hbelow
        plain := fun _ => by
          refine ⟨rfl, ?_⟩
          rintro rfl
          rw [← hv, hs₂.tree.data_root] }
    · rename_i hlinks
      have hne : b.links ≠ [] := by simpa using hlinks
      have hover₁ : ∀ o ∈ overlays, Below s₁.tree o :=
        fun o ho => ⟨he₁.lt (hover o ho).1, (hover o ho).2⟩
      have hkeys : ∀ link ∈ b.links, link.key.Formed := fun link hl =>
        hb _ (List.mem_cons_of_mem _ (List.mem_map_of_mem hl))
      refine (rooted_findChain hs₁ (he₁.lt hscope) hover₁ hkeys).bind
        fun chain s₂ he₂ hs₂ hchain => ?_
      split
      · refine .pure hs₂ ?_
        rintro _ ⟨⟩
        exact ⟨he₂.lt hid, hchain, hbelow, fun h => absurd h hne⟩
      · refine (rooted_value hs₂ (he₂.lt hid)).bind fun v s₃ he₃ hs₃ _ => ?_
        refine (rooted_passThrough hs₃ _ _ _).bind fun w s₄ he₄ hs₄ _ => .pure hs₄ ?_
        rintro _ ⟨⟩
        have he := he₃.trans he₄
        exact ⟨he.lt (he₂.lt hid), fun c hc => he.lt (hchain c hc), hbelow,
          fun h => absurd h hne⟩

theorem Placed.mono {t t' : ScopeTree φ} {b : Binding} {r : Resolution φ}
    (h : Placed data t b inside r) (he : t.Extends t') : Placed data t' b inside r :=
  { h with scope := he.lt h.scope, chain := fun c hc => he.lt (h.chain c hc) }

/-- A section that spares the top puts nothing in its place. -/
theorem Placed.spares {t : ScopeTree φ} {head : Section} {r : Resolution φ}
    (hr : Placed data t head.binding inside r) (hhead : head.SparesTop data inside) :
    r.scope ≠ ScopeTree.root ∨ r.isRepeating = false ∧ r.isDynamic = false := by
  rcases hhead with hleads | ⟨hlinks, harray⟩
  · exact .inl (hr.below hleads)
  · by_cases htop : r.scope = ScopeTree.root
    · obtain ⟨hdynamic, hrepeats⟩ := hr.plain hlinks
      rw [hdynamic, hrepeats htop]
      exact .inr ⟨harray, harray⟩
    · exact .inl htop

theorem rooted_innerScope (hs : s.Rooted data) {b : Binding} {r : Resolution φ}
    (hr : Placed data s.tree b inside r)
    (hspares : r.scope ≠ ScopeTree.root ∨ r.isRepeating = false ∧ r.isDynamic = false) :
    Leads (Session.Rooted data) s (innerScope r) fun inner s' =>
      inner < s'.tree.scopes.size ∧ (r.scope ≠ ScopeTree.root → inner ≠ ScopeTree.root) := by
  rw [innerScope]
  split
  · exact .pure hs ⟨hr.scope, fun h => h⟩
  · rename_i hdynamic
    have hne : r.scope ≠ ScopeTree.root := hspares.resolve_right fun h => by
      simp [h.2] at hdynamic
    have hchain : ∀ c ∈ (OverlayKey.result (r.chain.map Prod.fst)).chain,
        c < s.tree.scopes.size := by
      intro c hc
      obtain ⟨x, hx, rfl⟩ := List.mem_map.1 hc
      exact hr.chain x hx
    exact (rooted_overlay hs ⟨hr.scope, hne⟩ hchain _).weaken
      fun _ _ _ _ ho => ⟨ho.1, fun _ => ho.2⟩

theorem rooted_missing (hs : s.Rooted data) (raw : String) :
    Leads (Session.Rooted data) s (missing env raw) fun _ _ => True := by
  rw [missing]
  split
  · exact .throw hs
  · exact .pure hs trivial

theorem rooted_display (hs : s.Rooted data) (inclusive : Bool) (v : Value φ) (raw : String) :
    Leads (Session.Rooted data) s (display env inclusive v raw) fun _ _ => True := by
  rw [display]
  split
  · refine .look ?_
    exact (rooted_evaluate hs _ _ hs.tree.data_root).bind fun _ _ _ hs' _ => .pure hs' trivial
  · exact .pure hs trivial
  · exact .pure hs trivial

end Run

end TextTemplate
