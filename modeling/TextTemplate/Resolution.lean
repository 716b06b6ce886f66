import TextTemplate.Format
import TextTemplate.Scope.Search
import TextTemplate.Template

/-!
Bindings resolved to scopes: the scope of the key, the functions of the links with their scopes, and
the value that comes out of them. A key is looked for in the active overlays first, innermost first.
-/
namespace TextTemplate
variable {φ : Type}

structure Resolution (φ : Type) where
  scope : ScopeId
  /-- The functions the value goes through and where each is bound. -/
  chain : List (ScopeId × φ)
  /-- There is none while a section's text is awaited. -/
  value : Option (Value φ)
  isRepeating : Bool
  /-- The value belongs to a loop or came out of functions. -/
  isDynamic : Bool
  size : Nat

namespace Run

/-- The scope a key names. An absolute key is looked for in the innermost overlay that covers it,
and nowhere else when there is one. -/
def findScope (host : Host φ) (policy : FailurePolicy) (scope : ScopeId) (overlays : List ScopeId)
    (key : Key) : Run φ (Option ScopeId) := do
  let t ← tree
  match if key.inContext then none else overlays.find? fun o => t.covers o key.text with
  | some overlay => search host policy overlay key
  | none => search host policy scope key

/-- The functions of the links; each link must lead to one. -/
def findChain (host : Host φ) (policy : FailurePolicy) (scope : ScopeId) (overlays : List ScopeId) :
    List Link → Run φ (List (ScopeId × φ))
  | [] => return []
  | link :: links => do
    match ← findScope host policy scope overlays link.key with
    | none => throw (.unresolvedFunction policy.raw)
    | some id =>
      match (← tree).function? id with
      | none => throw (.nonFunction policy.raw)
      | some f => return (id, f) :: (← findChain host policy scope overlays links)

/-- Passes a value through functions in order; each link's format and escape apply to what its
function returns. -/
def passThrough (env : Env φ) (policy : FailurePolicy) :
    List (φ × Link) → Value φ → Run φ (Value φ)
  | [], v => return v
  | (f, link) :: links, v => do
    let root := (← tree).data ScopeTree.root
    let w ← evaluate env.host policy f v root
    let w := if link.format.isSome || link.escape then
        .string (formatValue env.numbers link.format link.escape w)
      else w
    passThrough env policy links w

/-- Resolves a binding seen from a scope; `none` when its key leads nowhere. -/
def resolve (env : Env φ) (b : Binding) (scope : ScopeId) (overlays : List ScopeId) :
    Run φ (Option (Resolution φ)) := do
  let policy := env.policy b.raw
  match ← findScope env.host policy scope overlays b.key with
  | none => return none
  | some found =>
    if b.links.isEmpty then
      let v ← value env.host policy found
      return some {
        scope := found
        chain := []
        value := v
        isRepeating := v.isArray
        isDynamic := v.isArray
        size := v.size }
    else
      let chain ← findChain env.host policy scope overlays b.links
      if b.awaitsText then
        return some {
          scope := found
          chain
          value := none
          isRepeating := false
          isDynamic := true
          size := 0 }
      else
        let v ← value env.host policy found
        let v := if b.format.isSome || b.escape then
            .string (formatValue env.numbers b.format b.escape v)
          else v
        let v ← passThrough env policy ((chain.map Prod.snd).zip b.links) v
        return some {
          scope := found
          chain
          value := v
          isRepeating := v.isArray
          isDynamic := true
          size := v.size }

/-- The scope that keys below the binding are read in: its own, or the overlay that holds what came
out of the functions. -/
def innerScope (r : Resolution φ) : Run φ ScopeId :=
  if (r.isRepeating && r.chain.isEmpty) || !r.isDynamic then return r.scope
  else onTree fun t => t.overlay r.scope (.result (r.chain.map Prod.fst)) (r.value.getD .null)

end Run

end TextTemplate
