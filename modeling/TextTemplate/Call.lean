import TextTemplate.Error
import TextTemplate.Value

/-!
Calls of bound functions. What a handle does is given by a host, and may depend on the calls made
before. Evaluation goes on calling while functions come back, up to a limit, so its result is never
a function; a failure is raised or stands for the empty text.
-/
namespace TextTemplate
variable {φ : Type}

/-- One call of a bound function. -/
structure Call (φ : Type) where
  function : φ
  context : Value φ
  root : Value φ

/-- The meaning of function handles: the outcome of a call, given the calls before it, latest
first. A failing call gives a message. -/
structure Host (φ : Type) where
  call : List (Call φ) → φ → Value φ → Value φ → Except String (Value φ)

/-- Functions whose outcome depends on their arguments alone. -/
def Host.IsPure (host : Host φ) : Prop :=
  ∀ calls calls' f context root, host.call calls f context root = host.call calls' f context root

inductive CallFault where
  | raised (message : String)
  | tooDeep
  deriving DecidableEq, Repr

/-- How many functions may come back in a row. -/
def maxReturned : Nat := 99

def CallFault.message : CallFault → String
  | raised message => message
  | tooDeep => "exceeded " ++ toString maxReturned ++ " nested function calls"

/-- Calls `v` if it is a function, then what comes back, at most `fuel` times. -/
def Host.follow (host : Host φ) (context root : Value φ) (fuel : Nat) (v : Value φ)
    (calls : List (Call φ)) : Except CallFault (Value φ) × List (Call φ) :=
  match v with
  | .function f =>
    match fuel with
    | 0 => (.error .tooDeep, calls)
    | fuel + 1 =>
      match host.call calls f context root with
      | .ok w => follow host context root fuel w (⟨f, context, root⟩ :: calls)
      | .error message => (.error (.raised message), ⟨f, context, root⟩ :: calls)
  | v => (.ok v, calls)

/-- What happens when a bound function fails while the tag `raw` is worked on. -/
structure FailurePolicy where
  raw : String
  propagate : Bool
  deriving DecidableEq, Repr

/-- The outcome of a failure: an error, or the empty text. -/
def FailurePolicy.settle (policy : FailurePolicy) (fault : CallFault) :
    Except TemplateError (Value φ) :=
  if policy.propagate then .error (.functionFailed fault.message policy.raw) else .ok (.string "")

/-- Calls a function and whatever functions come back, and gives the calls made so far. -/
def Host.evaluate (host : Host φ) (policy : FailurePolicy) (f : φ) (context root : Value φ)
    (calls : List (Call φ)) : Except TemplateError (Value φ) × List (Call φ) :=
  match host.follow context root (maxReturned + 1) (.function f) calls with
  | (.ok v, calls) => (.ok v, calls)
  | (.error fault, calls) => (policy.settle fault, calls)

theorem Host.follow_not_function (host : Host φ) {context root v w : Value φ} {fuel : Nat}
    {calls calls' : List (Call φ)}
    (h : host.follow context root fuel v calls = (.ok w, calls')) : w.isFunction = false := by
  induction fuel generalizing v calls with
  | zero => cases v <;> simp_all [follow, Value.isFunction] <;> (obtain ⟨rfl, _⟩ := h; rfl)
  | succ fuel ih =>
    cases v with
    | function f =>
      simp only [follow] at h
      split at h
      · exact ih h
      · simp at h
    | _ => simp only [follow, Prod.mk.injEq, Except.ok.injEq] at h; obtain ⟨rfl, _⟩ := h; rfl

end TextTemplate
