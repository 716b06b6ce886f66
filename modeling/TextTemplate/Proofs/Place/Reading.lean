import TextTemplate.Proofs.Place

/-!
Reading places. Of a host whose functions depend on their arguments alone, a call comes to the same
whatever was called before, and a value that is read does not depend on the tag that asks for it.
-/
namespace TextTemplate
variable {φ : Type}

namespace Host
variable {host : Host φ}

theorem follow_fst (h : host.IsPure) (context root : Value φ) (fuel : Nat) (v : Value φ)
    (calls calls' : List (Call φ)) :
    (host.follow context root fuel v calls).1 = (host.follow context root fuel v calls').1 := by
  induction fuel generalizing v calls calls' with
  | zero => cases v <;> rfl
  | succ fuel ih =>
    cases v with
    | function f =>
      simp only [follow, h calls calls' f context root]
      split
      · exact ih _ _ _
      · rfl
    | _ => rfl

theorem evaluate_fst (h : host.IsPure) (policy : FailurePolicy) (f : φ) (context root : Value φ)
    (calls : List (Call φ)) :
    (host.evaluate policy f context root calls).1 = host.outcome policy f context root := by
  have hf := follow_fst h context root (maxReturned + 1) (.function f) calls []
  simp only [outcome, evaluate]
  cases h₁ : host.follow context root (maxReturned + 1) (.function f) calls with
  | mk r₁ c₁ =>
    cases h₂ : host.follow context root (maxReturned + 1) (.function f) [] with
    | mk r₂ c₂ =>
      obtain rfl : r₁ = r₂ := by simpa [h₁, h₂] using hf
      cases r₁ <;> rfl

/-- What a call comes to, when it does, does not depend on the tag. -/
theorem outcome_raw {raw raw' : String} {propagate : Bool} {f : φ} {context root v : Value φ}
    (h : host.outcome ⟨raw, propagate⟩ f context root = .ok v) :
    host.outcome ⟨raw', propagate⟩ f context root = .ok v := by
  simp only [outcome, evaluate] at h ⊢
  cases hf : host.follow context root (maxReturned + 1) (.function f) [] with
  | mk r calls =>
    rw [hf] at h
    cases r with
    | ok w => exact h
    | error fault => cases propagate <;> simp_all [FailurePolicy.settle]

theorem outcome_not_function {policy : FailurePolicy} {f : φ} {context root v : Value φ}
    (h : host.outcome policy f context root = .ok v) : v.isFunction = false := by
  simp only [outcome, evaluate] at h
  cases hf : host.follow context root (maxReturned + 1) (.function f) [] with
  | mk r calls =>
    rw [hf] at h
    cases r with
    | ok w =>
      obtain rfl : w = v := by simpa using h
      exact follow_not_function host hf
    | error fault =>
      simp only [FailurePolicy.settle] at h
      split at h
      · cases h
      · obtain rfl : Value.string "" = v := by simpa using h
        rfl

/-- Passes a value through functions that have no formats of their own. -/
def passPlain (host : Host φ) (policy : FailurePolicy) (data : Value φ) :
    List φ → Value φ → Except TemplateError (Value φ)
  | [], v => .ok v
  | f :: fs, v => do
    let w ← host.outcome policy f v data
    passPlain host policy data fs w

theorem passPlain_raw {raw raw' : String} {propagate : Bool} {data v w : Value φ} {fs : List φ}
    (h : host.passPlain ⟨raw, propagate⟩ data fs v = .ok w) :
    host.passPlain ⟨raw', propagate⟩ data fs v = .ok w := by
  induction fs generalizing v with
  | nil => exact h
  | cons f fs ih =>
    obtain ⟨u, ho, h⟩ := bind_eq_ok_iff.1 h
    exact bind_eq_ok_iff.2 ⟨u, outcome_raw ho, ih h⟩

theorem passPlain_not_function {policy : FailurePolicy} {data v w : Value φ} {fs : List φ}
    (hv : v.isFunction = false) (h : host.passPlain policy data fs v = .ok w) :
    w.isFunction = false := by
  induction fs generalizing v with
  | nil =>
    obtain rfl : v = w := by simpa [passPlain] using h
    exact hv
  | cons f fs ih =>
    obtain ⟨u, ho, h⟩ := bind_eq_ok_iff.1 h
    exact ih (outcome_not_function ho) h

end Host

namespace Place
variable {host : Host φ} {propagate : Bool}

/-- The value of a place whatever tag is worked on. -/
def Reads (host : Host φ) (propagate : Bool) (p : Place φ) (v : Value φ) : Prop :=
  ∀ raw, p.read host ⟨raw, propagate⟩ = .ok v

theorem readAlone_raw {raw raw' : String} {b v : Value φ}
    (h : readAlone host ⟨raw, propagate⟩ b = .ok v) :
    readAlone host ⟨raw', propagate⟩ b = .ok v := by
  cases b with
  | function f => exact Host.outcome_raw h
  | _ => exact h

theorem readUnder_raw {raw raw' : String} {above : List (Spot φ)} {b v : Value φ}
    (h : readUnder host ⟨raw, propagate⟩ above b = .ok v) :
    readUnder host ⟨raw', propagate⟩ above b = .ok v := by
  induction above generalizing b v with
  | nil => exact readAlone_raw h
  | cons a rest ih =>
    cases b with
    | function f =>
      obtain ⟨context, hc, h⟩ := bind_eq_ok_iff.1 h
      obtain ⟨root, hr, h⟩ := bind_eq_ok_iff.1 h
      exact bind_eq_ok_iff.2 ⟨context, ih hc, bind_eq_ok_iff.2
        ⟨root, readAlone_raw hr, Host.outcome_raw h⟩⟩
    | _ => exact h

theorem reads_of_read {raw : String} {p : Place φ} {v : Value φ}
    (h : p.read host ⟨raw, propagate⟩ = .ok v) : p.Reads host propagate v :=
  fun _ => readUnder_raw h

theorem read_of_not_function {policy : FailurePolicy} {p : Place φ}
    (h : p.bound.isFunction = false) : p.read host policy = .ok p.bound := by
  obtain ⟨⟨path, b⟩, above⟩ := p
  cases above <;> cases b <;> first | rfl | cases h

theorem readAlone_not_function {policy : FailurePolicy} {b v : Value φ}
    (h : readAlone host policy b = .ok v) : v.isFunction = false := by
  cases b with
  | function f => exact Host.outcome_not_function h
  | _ => cases h; rfl

/-- No function is ever read. -/
theorem read_not_function {policy : FailurePolicy} {p : Place φ} {v : Value φ}
    (h : p.read host policy = .ok v) : v.isFunction = false := by
  obtain ⟨⟨path, b⟩, above⟩ := p
  cases above with
  | nil => exact readAlone_not_function h
  | cons a rest =>
    cases b with
    | function f =>
      simp only [read, readUnder, bound, bind, Except.bind] at h
      split at h
      · cases h
      · split at h
        · cases h
        · exact Host.outcome_not_function h
    | _ => cases h; rfl

/-- What is left of a walk once it has led somewhere. -/
theorem walk_of_fst {x : Except TemplateError (Option (Place φ × List String))} {q : Place φ}
    (h : (x >>= fun found => pure (found.map Prod.fst)) = .ok (some q)) :
    ∃ rest, x = .ok (some (q, rest)) := by
  obtain e | _ | y := x <;> cases h
  exact ⟨y.2, rfl⟩

end Place

end TextTemplate
