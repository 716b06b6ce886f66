import TextTemplate.Scope.Search

/-!
How runs end: with a result or an error, and with a session in either case.
-/
namespace TextTemplate
variable {φ α β : Type}

namespace Run

/-- The session a run leaves, also when it fails. -/
def left (m : Run φ α) (s : Session φ) : Session φ :=
  match m s with
  | .ok _ s' => s'
  | .error _ s' => s'

/-- The result or the error of a run. -/
def ending (m : Run φ α) (s : Session φ) : Except TemplateError α :=
  match m s with
  | .ok a _ => .ok a
  | .error e _ => .error e

theorem ending_of_ok {m : Run φ α} {s s' : Session φ} {a : α} (h : m s = .ok a s') :
    m.ending s = .ok a ∧ m.left s = s' := by
  rw [ending, left, h]
  exact ⟨rfl, rfl⟩

theorem ending_of_error {m : Run φ α} {s s' : Session φ} {e : TemplateError}
    (h : m s = .error e s') : m.ending s = .error e ∧ m.left s = s' := by
  rw [ending, left, h]
  exact ⟨rfl, rfl⟩

theorem of_bind {m : Run φ α} {f : α → Run φ β} {b : β} {s s' : Session φ}
    (h : (m >>= f) s = .ok b s') : ∃ a s₁, m s = .ok a s₁ ∧ f a s₁ = .ok b s' := by
  simp only [Bind.bind, EStateM.bind] at h
  split at h
  · rename_i a s₁ hm
    exact ⟨a, s₁, hm, h⟩
  · cases h

theorem bind_of_ok {m : Run φ α} {a : α} {s s' : Session φ} (h : m s = .ok a s') (f : α → Run φ β) :
    (m >>= f) s = f a s' := by
  simp only [Bind.bind, EStateM.bind, h]

theorem bind_of_error {m : Run φ α} {e : TemplateError} {s s' : Session φ} (h : m s = .error e s')
    (f : α → Run φ β) : (m >>= f) s = .error e s' := by
  simp only [Bind.bind, EStateM.bind, h]

theorem ending_bind_of_ok {m : Run φ α} {a : α} {s s' : Session φ} (h : m s = .ok a s')
    (f : α → Run φ β) : (m >>= f).ending s = (f a).ending s' := by
  rw [ending, ending, bind_of_ok h]

theorem tree_bind (f : ScopeTree φ → Run φ α) (s : Session φ) : (tree >>= f) s = f s.tree s := rfl

variable {host : Host φ} {policy : FailurePolicy} {id : ScopeId} {s : Session φ}

theorem force_ready {v : Value φ} (h : (s.tree.scope id).content = .ready v) :
    force host policy id s = .ok () s := by
  simp only [force, tree_bind, h]
  rfl

theorem value_ready {v : Value φ} (h : (s.tree.scope id).content = .ready v) :
    value host policy id s = .ok v s := by
  rw [value, bind_of_ok (force_ready h), tree_bind, ScopeTree.data, h]
  rfl

/-- The function bound at a scope is called, and what it gives is frozen. -/
theorem force_pending {f : φ} (h : (s.tree.scope id).content = .pending f) :
    force host policy id s =
      (evaluate host policy f (s.tree.surroundings id).1 (s.tree.surroundings id).2 >>= fun v =>
        setTree (s.tree.settle id v)) s := by
  simp only [force, tree_bind, h]

theorem force_ok {f : φ} {v : Value φ} {calls : List (Call φ)}
    (h : (s.tree.scope id).content = .pending f)
    (hcall : host.evaluate policy f (s.tree.surroundings id).1 (s.tree.surroundings id).2 s.calls =
      (.ok v, calls)) : force host policy id s = .ok () ⟨s.tree.settle id v, calls⟩ := by
  simp only [force_pending h, bind, EStateM.bind, evaluate, hcall]
  rfl

theorem force_error {f : φ} {e : TemplateError} {calls : List (Call φ)}
    (h : (s.tree.scope id).content = .pending f)
    (hcall : host.evaluate policy f (s.tree.surroundings id).1 (s.tree.surroundings id).2 s.calls =
      (.error e, calls)) : force host policy id s = .error e { s with calls } := by
  simp only [force_pending h, bind, EStateM.bind, evaluate, hcall]

end Run

end TextTemplate
