import TextTemplate.Resolution

/-!
Reading under two policies. Scopes are found and read alike whatever is done about functions that fail:
only the calls differ. So what relates the calls of two runs relates their searches too, if it is kept
when one step follows another.
-/
namespace TextTemplate
variable {φ : Type}

/-- A relation of runs that holds of calls under two policies, of a run and itself, and of steps that
follow each other. -/
structure Policies (host : Host φ) (policy policy' : FailurePolicy)
    (Rel : ∀ {α : Type}, Run φ α → Run φ α → Prop) : Prop where
  refl : ∀ {α : Type} (m : Run φ α), Rel m m
  andThen : ∀ {α β : Type} {m m' : Run φ α} {f f' : α → Run φ β}, Rel m m' →
    (∀ a, Rel (f a) (f' a)) → Rel (m >>= f) (m' >>= f')
  evaluate : ∀ (f : φ) (context root : Value φ),
    Rel (Run.evaluate host policy f context root) (Run.evaluate host policy' f context root)

namespace Policies

variable {host : Host φ} {policy policy' : FailurePolicy}
  {Rel : ∀ {α : Type}, Run φ α → Run φ α → Prop} (h : Policies host policy policy' Rel)
include h

theorem step {α β : Type} (m : Run φ α) {f f' : α → Run φ β} (hf : ∀ a, Rel (f a) (f' a)) :
    Rel (m >>= f) (m >>= f') :=
  h.andThen (h.refl m) hf

theorem force (id : ScopeId) : Rel (Run.force host policy id) (Run.force host policy' id) := by
  refine h.step _ fun t => ?_
  cases (t.scope id).content with
  | ready v => exact h.refl _
  | pending f => exact h.andThen (h.evaluate f _ _) fun v => h.refl _

theorem value (id : ScopeId) : Rel (Run.value host policy id) (Run.value host policy' id) :=
  h.andThen (h.force id) fun _ => h.refl _

theorem field (id : ScopeId) (name : String) (skipCache : Bool) :
    Rel (Run.field host policy id name skipCache) (Run.field host policy' id name skipCache) :=
  h.andThen (h.force id) fun _ => h.refl _

theorem item (id : ScopeId) (index : Nat) :
    Rel (Run.item host policy id index) (Run.item host policy' id index) := by
  refine h.step _ fun t => ?_
  split
  · exact h.refl _
  · dsimp only
    split
    · exact h.refl _
    · exact h.andThen (h.value id) fun v => h.refl _

theorem descend (target joined : String) (segments : List String) (id : ScopeId) :
    Rel (Run.descend host policy target joined segments id)
      (Run.descend host policy' target joined segments id) := by
  induction segments generalizing joined id with
  | nil => exact h.refl _
  | cons segment segments ih =>
    rw [Run.descend, Run.descend]
    refine h.andThen (h.field id _ true) fun child => ?_
    cases child with
    | none => exact ih _ id
    | some child =>
      dsimp only
      split
      · exact h.refl _
      · refine h.step _ fun t => ?_
        split
        · exact h.refl _
        · exact ih _ child

theorem search (id : ScopeId) (key : Key) :
    Rel (Run.search host policy id key) (Run.search host policy' id key) := by
  rw [Run.search, Run.search]
  refine h.step _ fun t => ?_
  split
  · dsimp only
    split
    · exact h.refl _
    · split
      · exact h.refl _
      · split
        · exact h.refl _
        · exact h.descend _ _ _ id
  · split
    · exact h.refl _
    · exact h.descend _ _ _ _

theorem findScope (scope : ScopeId) (overlays : List ScopeId) (key : Key) :
    Rel (Run.findScope host policy scope overlays key)
      (Run.findScope host policy' scope overlays key) := by
  refine h.step _ fun t => ?_
  split
  · exact h.search _ key
  · exact h.search scope key

end Policies

end TextTemplate
