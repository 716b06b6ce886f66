import TextTemplate.Proofs.Place.Reading
import TextTemplate.Proofs.Scope.Upkeep
import TextTemplate.Proofs.Treeless

/-!
Bindings on any tree. Whatever the functions do, resolving a binding keeps what reading keeps, and
what it gives stands in the tree: its scope, the scopes of its functions, and the value they come to.
-/
namespace TextTemplate
variable {φ : Type}

/-- Calls of `f` come to the same whatever was called before. -/
def Host.PureAt (host : Host φ) (f : φ) : Prop :=
  ∀ policy context root calls,
    (host.evaluate policy f context root calls).1 = host.outcome policy f context root

theorem Host.IsPure.pureAt {host : Host φ} (h : host.IsPure) (f : φ) : host.PureAt f :=
  fun policy context root calls => evaluate_fst h policy f context root calls

/-- What a value comes to, when it does, does not depend on the tag. -/
theorem Treeless.passThrough_raw {env : Env φ} {data : Value φ} {raw raw' : String}
    {steps : List (φ × Link)} {v w : Value φ}
    (h : passThrough env data (env.policy raw) steps v = .ok w) :
    passThrough env data (env.policy raw') steps v = .ok w := by
  induction steps generalizing v with
  | nil => exact h
  | cons step steps ih =>
    simp only [passThrough, bind, Except.bind] at h ⊢
    cases ho : env.host.outcome (env.policy raw) step.1 v data with
    | error e => simp [ho] at h
    | ok u =>
      rw [ho] at h
      rw [show env.host.outcome (env.policy raw') step.1 v data = .ok u from Host.outcome_raw ho]
      exact ih h

/-- What is known of a resolved binding by the tree it was resolved in. -/
structure Resolved (env : Env φ) (b : Binding) (t : ScopeTree φ) (r : Resolution φ) : Prop where
  scope : r.scope < t.scopes.size
  plain : b.links = [] → r.chain = [] ∧ r.isDynamic = r.isRepeating
  linked : b.links ≠ [] → r.isDynamic = true ∧ r.chain.length = b.links.length
  chain : ∀ x ∈ r.chain, x.1 < t.scopes.size ∧ t.function? x.1 = some x.2
  value : b.links ≠ [] → b.awaitsText = false → ∃ w, r.value = some w ∧ w.isFunction = false ∧
    t.Ready r.scope ∧ (b.format = none → b.escape = false →
      (∀ x ∈ r.chain, env.host.PureAt x.2) →
      Treeless.passThrough env (t.data ScopeTree.root) (env.policy b.raw)
        ((r.chain.map Prod.snd).zip b.links) (t.data r.scope) = .ok w)

namespace Run

variable {J : ScopeTree φ → Prop} {env : Env φ} {s : Session φ} {scope : ScopeId}
  {overlays : List ScopeId}

theorem leads_findScope {host : Host φ} {policy : FailurePolicy} (hJ : Upheld J) (hs : J s.tree)
    (hscope : scope < s.tree.scopes.size) (hover : ∀ o ∈ overlays, o < s.tree.scopes.size)
    (key : Key) :
    Leads (fun s => J s.tree) s (findScope host policy scope overlays key) fun r s' =>
      ∀ c ∈ r, c < s'.tree.scopes.size := by
  have hsearch : ∀ id < s.tree.scopes.size,
      Leads (fun s => J s.tree) s (search host policy id key) fun r s' =>
        ∀ c ∈ r, c < s'.tree.scopes.size := fun id hid =>
    (leads_search hJ hs hid key).weaken fun _ _ _ _ hr c hc => (hr c hc).1
  refine .look ?_
  split
  · rename_i o ho
    split at ho
    · cases ho
    · exact hsearch o (hover o (List.mem_of_find?_eq_some ho))
  · exact hsearch scope hscope

theorem leads_findChain {host : Host φ} {policy : FailurePolicy} (hJ : Upheld J) (hs : J s.tree)
    (hscope : scope < s.tree.scopes.size) (hover : ∀ o ∈ overlays, o < s.tree.scopes.size)
    (links : List Link) :
    Leads (fun s => J s.tree) s (findChain host policy scope overlays links) fun chain s' =>
      chain.length = links.length ∧
        ∀ x ∈ chain, x.1 < s'.tree.scopes.size ∧ s'.tree.function? x.1 = some x.2 := by
  induction links generalizing s with
  | nil => exact .pure hs ⟨rfl, by simp⟩
  | cons link links ih =>
    refine (leads_findScope hJ hs hscope hover link.key).bind fun found s' he hs' hfound => ?_
    cases found with
    | none => exact .throw hs'
    | some id =>
      refine .look ?_
      cases hf : s'.tree.function? id with
      | none => exact .throw hs'
      | some f =>
        refine (ih hs' (he.lt hscope) fun o ho => he.lt (hover o ho)).bind
          fun chain s'' he' hs'' ⟨hlen, hchain⟩ => ?_
        refine .pure hs'' ⟨by simp [hlen], fun x hx => ?_⟩
        rcases List.mem_cons.1 hx with rfl | hx
        · have hlt := hfound id rfl
          exact ⟨he'.lt hlt, by rw [he'.function id hlt, hf]⟩
        · exact hchain x hx

/-- Functions change nothing but the calls made. -/
theorem leads_passThrough {I : Session φ → Prop} (hI : ∀ calls, I { s with calls })
    (policy : FailurePolicy) (steps : List (φ × Link)) (v : Value φ) :
    Leads I s (passThrough env policy steps v) fun w s' =>
      s'.tree = s.tree ∧ (steps ≠ [] ∨ v.isFunction = false → w.isFunction = false) ∧
        ((∀ f ∈ steps.map Prod.fst, env.host.PureAt f) →
          Treeless.passThrough env (s.tree.data ScopeTree.root) policy steps v = .ok w) := by
  induction steps generalizing s v with
  | nil => exact .pure (hI s.calls) ⟨rfl, fun hv => hv.resolve_left fun h => h rfl, fun _ => rfl⟩
  | cons step steps ih =>
    obtain ⟨f, link⟩ := step
    refine .look ?_
    refine (Leads.evaluate (R := fun w s' => s'.tree = s.tree ∧ (∀ calls, I { s' with calls }) ∧
      w.isFunction = false ∧ (env.host.PureAt f →
        env.host.outcome policy f v (s.tree.data ScopeTree.root) = .ok w)) hI ?_).bind ?_
    · intro w calls hw
      refine ⟨rfl, hI, Host.evaluate_not_function hw, fun hpure => ?_⟩
      rw [← hpure policy v _ s.calls, hw]
    · intro w s' _ _ ⟨ht, hI', hw, hpure⟩
      have hformatted : (if link.format.isSome || link.escape then
          .string (formatValue env.numbers link.format link.escape w) else w : Value φ).isFunction
            = false := by
        split
        · rfl
        · exact hw
      refine (ih hI' _).weaken fun u s'' _ _ ⟨ht', hu, hpass⟩ => ?_
      refine ⟨ht'.trans ht, fun _ => hu (.inr hformatted), fun hall => ?_⟩
      rw [Treeless.passThrough, hpure (hall f List.mem_cons_self), ← ht]
      exact hpass fun g hg => hall g (List.mem_cons_of_mem _ hg)

theorem leads_resolve (hJ : Upheld J) (hs : J s.tree) (hscope : scope < s.tree.scopes.size)
    (hover : ∀ o ∈ overlays, o < s.tree.scopes.size) (b : Binding) :
    Leads (fun s => J s.tree) s (resolve env b scope overlays) fun r s' =>
      ∀ x ∈ r, Resolved env b s'.tree x := by
  refine (leads_findScope hJ hs hscope hover b.key).bind fun found s₁ he₁ hs₁ hfound => ?_
  cases found with
  | none => exact .pure hs₁ fun _ hx => by cases hx
  | some id =>
    have hid := hfound id rfl
    dsimp only
    split
    · rename_i hlinks
      have hnil : b.links = [] := by simpa using hlinks
      refine (leads_value hJ hs₁ hid).bind fun v s₂ he₂ hs₂ _ => .pure hs₂ ?_
      rintro _ ⟨⟩
      exact {
        scope := he₂.lt hid
        plain := fun _ => ⟨rfl, rfl⟩
        linked := fun h => absurd hnil h
        chain := by simp
        value := fun h => absurd hnil h }
    · rename_i hlinks
      have hne : b.links ≠ [] := by simpa using hlinks
      refine (leads_findChain hJ hs₁ (he₁.lt hscope) (fun o ho => he₁.lt (hover o ho)) b.links).bind
        fun chain s₂ he₂ hs₂ ⟨hlen, hchain⟩ => ?_
      split
      · rename_i hawaits
        refine .pure hs₂ ?_
        rintro _ ⟨⟩
        exact {
          scope := he₂.lt hid
          plain := fun h => absurd h hne
          linked := fun _ => ⟨rfl, hlen⟩
          chain := hchain
          value := fun _ h => by simp [hawaits] at h }
      · refine (leads_value hJ hs₂ (he₂.lt hid)).bind fun v s₃ he₃ hs₃ ⟨hready, hv⟩ => ?_
        refine (leads_passThrough (fun _ => hs₃) _ _ _).bind
          fun w s₄ he₄ hs₄ ⟨ht, hw, hpass⟩ => .pure hs₄ ?_
        have hchain' : ∀ x ∈ chain, x.1 < s₄.tree.scopes.size ∧ s₄.tree.function? x.1 = some x.2 :=
          fun x hx => by
            obtain ⟨hlt, hf⟩ := hchain x hx
            have he := he₃.trans he₄
            exact ⟨he.lt hlt, by rw [he.function x.1 hlt, hf]⟩
        have hsteps : (chain.map Prod.snd).zip b.links ≠ [] := by
          have hpos := List.length_pos_iff.2 hne
          rw [← List.length_pos_iff, List.length_zip, List.length_map, hlen, Nat.min_self]
          exact hpos
        rintro _ ⟨⟩
        exact {
          scope := (he₃.trans he₄).lt (he₂.lt hid)
          plain := fun h => absurd h hne
          linked := fun _ => ⟨rfl, hlen⟩
          chain := hchain'
          value := fun _ _ => by
            refine ⟨w, rfl, hw (.inl hsteps), ht ▸ hready, fun hformat hescape hpure => ?_⟩
            simp only [hformat, hescape, Option.isSome_none, Bool.or_self, Bool.false_eq_true,
              if_false] at hpass
            rw [ht, hv]
            refine hpass fun f hf => ?_
            rw [List.map_fst_zip (by simp [hlen])] at hf
            obtain ⟨x, hx, rfl⟩ := List.mem_map.1 hf
            exact hpure x hx }

end Run

end TextTemplate
