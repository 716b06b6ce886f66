import TextTemplate.Proofs.Scope.Policies
import TextTemplate.Render

/-!
The same run for a tag that is written differently. What a tag resolves to has nothing to do with how
it is written; only its errors show it.
-/
namespace TextTemplate
variable {φ α β γ δ : Type}

namespace TemplateError

/-- The error with another tag in the place of the one it is about. -/
def withRaw (raw : String) : TemplateError → TemplateError
  | invalidTag message _ => invalidTag message raw
  | invalidSection message _ => invalidSection message raw
  | missingBinding _ => missingBinding raw
  | missingPartial name _ => missingPartial name raw
  | functionChain message _ => functionChain message raw
  | functionFailed message _ => functionFailed message raw
  | e => e

theorem withRaw_of_raw {e : TemplateError} {raw : String} (h : e.raw? = some raw) :
    e.withRaw raw = e := by
  cases e <;> simp_all [raw?, withRaw]

/-- The second error is the first, unless that is about the tag `raw`; then it may have the tag `raw'`
in its place. -/
def Reworded (raw raw' : String) (e e' : TemplateError) : Prop :=
  e' = e ∨ e.raw? = some raw ∧ e' = e.withRaw raw'

theorem Reworded.refl (raw raw' : String) (e : TemplateError) : Reworded raw raw' e e := .inl rfl

end TemplateError

open TemplateError (Reworded)

/-- Both runs go on in the same session: they give results that are related by `R`, or fail with
errors that are related by `E`. -/
def Alike (E : TemplateError → TemplateError → Prop) (R : α → β → Prop) (m : Run φ α)
    (m' : Run φ β) : Prop :=
  ∀ s, match m s with
    | .ok a t => ∃ b, m' s = .ok b t ∧ R a b
    | .error e t => ∃ e', m' s = .error e' t ∧ E e e'

namespace Alike

variable {E E' : TemplateError → TemplateError → Prop} {R : α → β → Prop} {Q : γ → δ → Prop}

theorem pure {a : α} {b : β} (h : R a b) :
    Alike E R (Pure.pure a : Run φ α) (Pure.pure b) := fun _ => ⟨b, rfl, h⟩

theorem throw {e e' : TemplateError} (h : E e e') :
    Alike E R (MonadExcept.throw e : Run φ α) (MonadExcept.throw e') := fun _ => ⟨e', rfl, h⟩

theorem bind {m : Run φ α} {m' : Run φ β} {f : α → Run φ γ} {f' : β → Run φ δ}
    (h : Alike E R m m') (hf : ∀ a b, R a b → Alike E Q (f a) (f' b)) :
    Alike E Q (m >>= f) (m' >>= f') := by
  intro s
  have hs := h s
  simp only [Bind.bind, EStateM.bind]
  cases hm : m s with
  | ok a t =>
    rw [hm] at hs
    obtain ⟨b, hm', hab⟩ := hs
    rw [hm']
    exact hf a b hab t
  | error e t =>
    rw [hm] at hs
    obtain ⟨e', hm', he⟩ := hs
    exact ⟨e', by rw [hm'], he⟩

theorem andThen {m m' : Run φ α} {f f' : α → Run φ γ} {Q : γ → γ → Prop} (h : Alike E Eq m m')
    (hf : ∀ a, Alike E Q (f a) (f' a)) : Alike E Q (m >>= f) (m' >>= f') :=
  h.bind fun a b hab => by
    subst hab
    exact hf a

theorem mono {m : Run φ α} {m' : Run φ β} (h : Alike E R m m') (hE : ∀ e e', E e e' → E' e e') :
    Alike E' R m m' := by
  intro s
  have hs := h s
  cases hm : m s with
  | ok a t =>
    rw [hm] at hs
    exact hs
  | error e t =>
    rw [hm] at hs
    obtain ⟨e', hm', he⟩ := hs
    exact ⟨e', hm', hE e e' he⟩

section Refl

variable (hE : ∀ e, E e e)
include hE

theorem refl (m : Run φ α) : Alike E Eq m m := by
  intro s
  cases hm : m s with
  | ok a t => exact ⟨a, rfl, rfl⟩
  | error e t => exact ⟨e, rfl, hE e⟩

/-- Both runs take the same first step. -/
theorem step (m : Run φ α) {f : α → Run φ γ} {f' : α → Run φ δ}
    (hf : ∀ a, Alike E Q (f a) (f' a)) : Alike E Q (m >>= f) (m >>= f') :=
  (refl hE m).bind fun a b hab => by
    subst hab
    exact hf a

end Refl

/-- Only the tree is looked at. -/
theorem look {f : ScopeTree φ → Run φ α} {f' : ScopeTree φ → Run φ β}
    (h : ∀ t, Alike E R (f t) (f' t)) : Alike E R (Run.tree >>= f) (Run.tree >>= f') :=
  fun s => h s.tree s

end Alike

section Bindings

variable {raw raw' : String}

theorem alike_evaluate {host : Host φ} {propagate : Bool} (f : φ) (context root : Value φ) :
    Alike (Reworded raw raw') Eq (Run.evaluate host ⟨raw, propagate⟩ f context root)
      (Run.evaluate host ⟨raw', propagate⟩ f context root) := by
  intro s
  simp only [Run.evaluate, Host.evaluate]
  cases host.follow context root (maxReturned + 1) (.function f) s.calls with
  | mk result calls =>
    cases result with
    | ok v => exact ⟨v, rfl, rfl⟩
    | error fault =>
      cases propagate with
      | true => exact ⟨_, rfl, .inr ⟨rfl, rfl⟩⟩
      | false => exact ⟨_, rfl, rfl⟩

theorem policies_reworded (host : Host φ) (raw raw' : String) (propagate : Bool) :
    Policies host ⟨raw, propagate⟩ ⟨raw', propagate⟩
      fun {_} (m m' : Run φ _) => Alike (Reworded raw raw') Eq m m' where
  refl := .refl (.refl raw raw')
  andThen h hf := h.andThen hf
  evaluate := alike_evaluate

theorem alike_missing (env : Env φ) :
    Alike (Reworded raw raw') Eq (Run.missing env raw) (Run.missing env raw') := by
  rw [Run.missing, Run.missing]
  split
  · exact .throw (.inr ⟨rfl, rfl⟩)
  · exact .pure rfl

/-- What a key resolves to has nothing to do with format, escaping and spelling. -/
theorem alike_resolve (env : Env φ) (b b' : Binding) (hkey : b'.key = b.key) (hl : b.links = [])
    (hl' : b'.links = []) (scope : ScopeId) (overlays : List ScopeId) :
    Alike (Reworded b.raw b'.raw) Eq (Run.resolve env b scope overlays)
      (Run.resolve env b' scope overlays) := by
  have hpolicies := policies_reworded env.host b.raw b'.raw env.settings.errorOnFuncFailure
  rw [Run.resolve, Run.resolve, hkey, hl, hl']
  refine (hpolicies.findScope scope overlays b.key).andThen fun found => ?_
  cases found with
  | none => exact .pure rfl
  | some found => exact (hpolicies.value found).andThen fun v => .pure rfl

end Bindings

end TextTemplate
