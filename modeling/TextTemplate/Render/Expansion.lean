import TextTemplate.Render.Output

/-!
The second pass, from the inside out. On each level the sections are expanded first, in order; then
the tags and included templates that waited are resolved, and the level becomes text. Inside a
section over a loop item or a function's result, the overlay holding it is the innermost of the
overlays in which absolute keys are looked for.
-/
namespace TextTemplate
variable {φ : Type}

/-- The text of one node once the sections of its level are expanded; `expanded` is the text of the
node if it is such a section. -/
def settleNode (env : Env φ) (includeText : Inclusion → ScopeId → Run φ String) (scope : ScopeId)
    (overlays : List ScopeId) (expanded : Option String) : Node → Run φ String
  | .text text => return text
  | .block _ _ => return expanded.getD ""
  | .inclusion i => includeText i scope
  | .tag tag => do
    match ← Run.resolve env tag.binding scope overlays with
    | some r => return (r.value.map (tagText env tag)).getD ""
    | none =>
      Run.missing env tag.raw
      return ""

/-- The text of a level whose sections are expanded. -/
def settleLevel (env : Env φ) (includeText : Inclusion → ScopeId → Run φ String) (scope : ScopeId)
    (overlays : List ScopeId) : List (Node × Option String) → Run φ String
  | [] => return ""
  | (node, expanded) :: rest => do
    let text ← settleNode env includeText scope overlays expanded node
    return text ++ (← settleLevel env includeText scope overlays rest)

/-- Expands a repeated section: the texts of the items that are shown, each rendered by `body` in
the overlay of the item. -/
def expandItems (env : Env φ) (raw : String) (body : ScopeId → List ScopeId → Run φ String)
    (scope : ScopeId) (overlays : List ScopeId) : List Nat → Run φ (List String)
  | [] => return []
  | index :: rest => do
    let item ← Run.item env.host (env.policy raw) scope index
    let v ← Run.value env.host (env.policy raw) item
    if ← Run.display env true v raw then
      let text ← body item (item :: overlays)
      return text :: (← expandItems env raw body scope overlays rest)
    else expandItems env raw body scope overlays rest

/-- Expands a section whose body is rendered by `body`, given a scope and the active overlays. -/
def expandSection (env : Env φ) (head : Section) (body : ScopeId → List ScopeId → Run φ String)
    (scope : ScopeId) (overlays : List ScopeId) : Run φ String := do
  match ← Run.resolve env head.binding scope overlays with
  | none =>
    Run.missing env head.raw
    if head.inclusive then return "" else body scope overlays
  | some r =>
    if head.passesText then
      let text ← body scope overlays
      let v ← Run.passThrough env (env.policy head.raw) ((r.chain.map Prod.snd).zip head.links)
        (.string text)
      return formatValue env.numbers none false v
    else if r.isRepeating then
      if !head.inclusive then
        if r.size = 0 then body scope overlays else return ""
      else
        let inner ← Run.innerScope r
        let texts ← expandItems env head.raw body inner overlays (List.range r.size)
        return if head.list then Text.joinList texts else String.join texts
    else if ← Run.display env head.inclusive (r.value.getD .null) head.raw then
      let inner ← Run.innerScope r
      body inner (if r.isDynamic then inner :: overlays else overlays)
    else return ""

mutual

/-- The text of a node if it is a section. -/
def expandNode (env : Env φ) (includeText : Inclusion → ScopeId → Run φ String) (scope : ScopeId)
    (overlays : List ScopeId) : Node → Run φ (Option String)
  | .block head body => do
    let level (scope : ScopeId) (overlays : List ScopeId) : Run φ String := do
      let pieces ← expandNodes env includeText scope overlays body
      settleLevel env includeText scope overlays (body.zip pieces)
    return some (← expandSection env head level scope overlays)
  | _ => return none

def expandNodes (env : Env φ) (includeText : Inclusion → ScopeId → Run φ String) (scope : ScopeId)
    (overlays : List ScopeId) : List Node → Run φ (List (Option String))
  | [] => return []
  | node :: nodes => do
    let piece ← expandNode env includeText scope overlays node
    return piece :: (← expandNodes env includeText scope overlays nodes)

end

/-- The text of a level of nodes. -/
def expandLevel (env : Env φ) (includeText : Inclusion → ScopeId → Run φ String) (scope : ScopeId)
    (overlays : List ScopeId) (nodes : List Node) : Run φ String := do
  let pieces ← expandNodes env includeText scope overlays nodes
  settleLevel env includeText scope overlays (nodes.zip pieces)

end TextTemplate
