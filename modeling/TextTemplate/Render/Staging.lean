import TextTemplate.Render.Output

/-!
The first pass, from the outside in. Everything whose data is known is turned into text, hidden
sections are dropped unread, and what is left waits for the second pass: repeated sections and
sections passed to functions, with their keys anchored, and whatever a key inside may still come to
mean there.
-/
namespace TextTemplate
variable {φ : Type}

/-- Whether a binding has to wait: it is seen from a scope that is not there yet, or one of its
absolute keys lies in a section that is still to be expanded. -/
def mustWait (tree : ScopeTree φ) (b : Binding) (inScope : Bool) (waiting : List ScopeId) : Bool :=
  b.keys.any fun key =>
    if key.inContext then !inScope else waiting.any fun scope => tree.covers scope key.text

mutual

/-- The nodes one node leaves for the second pass. `inScope` says that keys in context are seen from
`scope`; `waiting` are the scopes of the enclosing sections still to be expanded. -/
def stageNode (env : Env φ) (includeText : Inclusion → ScopeId → Run φ String) (scope : ScopeId)
    (inScope : Bool) (waiting : List ScopeId) : Node → Run φ (List Node)
  | .text text => return [.text text]
  | .inclusion i => do
    if i.key.inContext && !inScope then return [.inclusion i]
    return [.text (← includeText i scope)]
  | .tag tag => do
    if mustWait (← Run.tree) tag.binding inScope waiting then return [.tag tag]
    match ← Run.resolve env tag.binding scope [] with
    | some r => return [.text ((r.value.map (tagText env tag)).getD "")]
    | none =>
      if tag.key.inContext && inScope then
        Run.missing env tag.raw
        return []
      else return [.tag tag]
  | .block head body => do
    if mustWait (← Run.tree) head.binding inScope waiting then return [.block head body]
    match ← Run.resolve env head.binding scope [] with
    | none =>
      if head.key.inContext && inScope then
        Run.missing env head.raw
        if head.inclusive then return []
        else stageNodes env includeText scope inScope waiting body
      else return [.block head body]
    | some r =>
      let anchored := head.anchored ((← Run.tree).path scope)
      if head.passesText then
        return [.block anchored
          (← stageNodes env includeText scope inScope (r.scope :: waiting) body)]
      else if r.isRepeating then
        if !head.inclusive then
          if r.size = 0 then stageNodes env includeText scope inScope waiting body
          else return []
        else if r.size = 0 then return []
        else
          let inner ← Run.innerScope r
          return [.block anchored
            (← stageNodes env includeText scope false (inner :: waiting) body)]
      else
        if ← Run.display env head.inclusive (r.value.getD .null) head.raw then
          let inner ← Run.innerScope r
          stageNodes env includeText inner true waiting body
        else return []

def stageNodes (env : Env φ) (includeText : Inclusion → ScopeId → Run φ String) (scope : ScopeId)
    (inScope : Bool) (waiting : List ScopeId) : List Node → Run φ (List Node)
  | [] => return []
  | node :: nodes => do
    let staged ← stageNode env includeText scope inScope waiting node
    return staged ++ (← stageNodes env includeText scope inScope waiting nodes)

end

end TextTemplate
