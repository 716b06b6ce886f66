import TextTemplate.Call
import TextTemplate.Scope.Tree
import TextTemplate.Tag

/-!
Reading scopes. A read may call the function bound at a scope on its way, so it runs in a session: a
tree and the calls made so far. The session is kept when a read fails.
-/
namespace TextTemplate
variable {φ : Type}

/-- A scope tree and the calls made so far, latest first. -/
structure Session (φ : Type) where
  tree : ScopeTree φ
  calls : List (Call φ)

abbrev Run (φ : Type) := EStateM TemplateError (Session φ)

namespace Run

def tree : Run φ (ScopeTree φ) := do return (← get).tree

def setTree (tree : ScopeTree φ) : Run φ Unit := modify fun s => { s with tree }

/-- Runs a pure step on the tree. -/
def onTree {α : Type} (step : ScopeTree φ → α × ScopeTree φ) : Run φ α :=
  modifyGet fun s =>
    let (a, tree) := step s.tree
    (a, { s with tree })

/-- Calls a function and whatever functions come back. -/
def evaluate (host : Host φ) (policy : FailurePolicy) (f : φ) (context root : Value φ) :
    Run φ (Value φ) := fun s =>
  match host.evaluate policy f context root s.calls with
  | (.ok v, calls) => .ok v { s with calls }
  | (.error e, calls) => .error e { s with calls }

/-- Calls the function bound at a scope, once; a failure leaves the tree as it is. -/
def force (host : Host φ) (policy : FailurePolicy) (id : ScopeId) : Run φ Unit := do
  let t ← tree
  match (t.scope id).content with
  | .ready _ => return
  | .pending f =>
    let (context, root) := t.surroundings id
    let v ← evaluate host policy f context root
    setTree (t.settle id v)

/-- The data of a scope. -/
def value (host : Host φ) (policy : FailurePolicy) (id : ScopeId) : Run φ (Value φ) := do
  force host policy id
  return (← tree).data id

/-- The scope of a field, when there is one. -/
def field (host : Host φ) (policy : FailurePolicy) (id : ScopeId) (key : String)
    (skipCache : Bool) : Run φ (Option ScopeId) := do
  force host policy id
  onTree fun t => t.field id key skipCache

/-- The overlay for one item of a sequence. A scope that is not known to be a sequence is taken for
its own only item. -/
def item (host : Host φ) (policy : FailurePolicy) (id : ScopeId) (index : Nat) :
    Run φ ScopeId := do
  let t ← tree
  match (t.scope id).overlays.lookup (.item index) with
  | some there => return there
  | none =>
    let v ← match t.data id with
      | .array items => pure (items.getD index .null)
      | _ => value host policy id
    onTree fun t => t.overlay id (.item index) v

/-- Goes down from a scope by the segments of a path. A field may have dots in its name: when no
field has the name `joined` made so far, the next segment is joined to it. -/
def descend (host : Host φ) (policy : FailurePolicy) (target : String) :
    (joined : String) → (segments : List String) → ScopeId → Run φ (Option ScopeId)
  | _, [], _ => return none
  | joined, segment :: segments, id => do
    match ← field host policy id (joined ++ segment) true with
    | some child =>
      if child = id then return some id
      else if segments.isEmpty || (← tree).path child = target then return some child
      else descend host policy target "" segments child
    | none => descend host policy target (joined ++ segment ++ ".") segments id

/-- The scope a key names, seen from a scope. A key in context is looked for below the scope; any
other key below the nearest scope, from here up, whose path covers it. -/
def search (host : Host φ) (policy : FailurePolicy) (id : ScopeId) (key : Key) :
    Run φ (Option ScopeId) := do
  let t ← tree
  if key.inContext then
    let target := pathStem (t.path id) ++ key.text
    if key.text.isEmpty then return some id
    match t.known? id target with
    | some hit => return some hit
    | none =>
      if key.segments.isEmpty || t.path id = target then return some id
      else descend host policy target "" key.segments id
  else
    match t.climb key.text key.segments id true with
    | .found hit => return some hit
    | .descend start segments => descend host policy key.text "" segments start

end Run

end TextTemplate
