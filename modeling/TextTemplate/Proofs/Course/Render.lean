import TextTemplate.Proofs.Inclusions
import TextTemplate.Proofs.Runs

/-!
Rendering as it recurses. A search climbs from parent to parent for as long as there is one, functions
that come back are called until there are too many of them, and an included template is rendered one
level deeper than the one that includes it, down to a depth that is looked at. Nothing in the data or
the syntax bounds these three, so each of them takes as many steps as it is given and comes to nothing
when they run out. What happens on the way is noted.
-/
namespace TextTemplate
variable {φ α : Type}

/-- Climbs from parent to parent, wherever that leads. -/
def ScopeTree.climbOn (tree : ScopeTree φ) (target : String) (segments : List String) :
    (steps : Nat) → (id : ScopeId) → (useCache : Bool) → Option Landing
  | 0, _, _ => none
  | steps + 1, id, useCache =>
    match if useCache then tree.known? id target else none with
    | some hit => some (.found hit)
    | none =>
      if segments.isEmpty || tree.path id = target then some (.found id)
      else match tree.parent? id with
        | none => some (.descend id segments)
        | some above =>
          if tree.covers id target then
            let below := segments.drop (pathDepth (tree.path id))
            if below.isEmpty then some (.found id) else some (.descend id below)
          else climbOn tree target segments steps above (tree.isRepeating id)

/-- Calls `v` if it is a function, then what comes back, unless `made` calls are too many. -/
def Host.followOn (host : Host φ) (context root : Value φ) :
    (steps made : Nat) → (v : Value φ) → (calls : List (Call φ)) →
      Option (Except CallFault (Value φ) × List (Call φ))
  | 0, _, _, _ => none
  | steps + 1, made, v, calls =>
    match v with
    | .function f =>
      if maxReturned < made then some (.error .tooDeep, calls)
      else match host.call calls f context root with
        | .ok w => followOn host context root steps (made + 1) w (⟨f, context, root⟩ :: calls)
        | .error message => some (.error (.raised message), ⟨f, context, root⟩ :: calls)
    | v => some (.ok v, calls)

namespace Course

/-- What is noted of a render. -/
inductive Event (φ : Type) where
  /-- A search climbed in a tree. -/
  | climbed (tree : ScopeTree φ)
  /-- A function was evaluated, in so many calls. -/
  | evaluated (calls : Nat)
  /-- An included template was rendered at a depth. -/
  | entered (depth : Nat)

/-- A session and what was noted so far, latest first. -/
structure State (φ : Type) where
  session : Session φ
  log : List (Event φ)

/-- What takes as many steps as it is given, and may come to nothing. -/
abbrev Walk (φ : Type) := ReaderT Nat (ExceptT TemplateError (StateT (State φ) Option))

/-- How a walk ends in so many steps, if it does. -/
def Walk.ends (w : Walk φ α) (steps : Nat) (s : State φ) :
    Option (Except TemplateError α × State φ) := w steps s

/-- What only takes one step. -/
def ofRun (m : Run φ α) : Walk φ α := fun _ s => some (m.ending s.session, ⟨m.left s.session, s.log⟩)

def evaluate (host : Host φ) (policy : FailurePolicy) (f : φ) (context root : Value φ) :
    Walk φ (Value φ) := fun steps s =>
  match host.followOn context root steps 0 (.function f) s.session.calls with
  | none => none
  | some (result, calls) => some (match result with
      | .ok v => .ok v
      | .error fault => policy.settle fault,
    ⟨⟨s.session.tree, calls⟩, .evaluated (calls.length - s.session.calls.length) :: s.log⟩)

/-- Climbs in the tree there is. -/
def climb (target : String) (segments : List String) (id : ScopeId) : Walk φ ScopeTree.Landing :=
  fun steps s => (s.session.tree.climbOn target segments steps id true).map fun l =>
    (.ok l, ⟨s.session, .climbed s.session.tree :: s.log⟩)

/-- Runs `body` on a tree of its own at the depth `depth`, and then goes on with the tree there was;
an error inside is no text. -/
def nested (depth : Nat) (tree : ScopeTree φ) (body : Walk φ String) : Walk φ (Option String) :=
  fun steps s =>
    match body.ends steps ⟨⟨tree, s.session.calls⟩, .entered depth :: s.log⟩ with
    | none => none
    | some (result, inner) =>
      some (.ok result.toOption, ⟨⟨s.session.tree, inner.session.calls⟩, inner.log⟩)

def force (host : Host φ) (policy : FailurePolicy) (id : ScopeId) : Walk φ Unit := do
  let t ← ofRun Run.tree
  match (t.scope id).content with
  | .ready _ => return
  | .pending f =>
    let v ← evaluate host policy f (t.surroundings id).1 (t.surroundings id).2
    ofRun (Run.setTree (t.settle id v))

def value (host : Host φ) (policy : FailurePolicy) (id : ScopeId) : Walk φ (Value φ) := do
  force host policy id
  return (← ofRun Run.tree).data id

def field (host : Host φ) (policy : FailurePolicy) (id : ScopeId) (key : String)
    (skipCache : Bool) : Walk φ (Option ScopeId) := do
  force host policy id
  ofRun (Run.onTree fun t => t.field id key skipCache)

def item (host : Host φ) (policy : FailurePolicy) (id : ScopeId) (index : Nat) :
    Walk φ ScopeId := do
  let t ← ofRun Run.tree
  match (t.scope id).overlays.lookup (.item index) with
  | some there => return there
  | none =>
    let v ← match t.data id with
      | .array items => pure (items.getD index .null)
      | _ => value host policy id
    ofRun (Run.onTree fun t => t.overlay id (.item index) v)

def descend (host : Host φ) (policy : FailurePolicy) (target : String) :
    (joined : String) → (segments : List String) → ScopeId → Walk φ (Option ScopeId)
  | _, [], _ => return none
  | joined, segment :: segments, id => do
    match ← field host policy id (joined ++ segment) true with
    | some child =>
      if child = id then return some id
      else
        let t ← ofRun Run.tree
        if segments.isEmpty || t.path child = target then return some child
        else descend host policy target "" segments child
    | none => descend host policy target (joined ++ segment ++ ".") segments id

def search (host : Host φ) (policy : FailurePolicy) (id : ScopeId) (key : Key) :
    Walk φ (Option ScopeId) := do
  let t ← ofRun Run.tree
  if key.inContext then
    let target := pathStem (t.path id) ++ key.text
    if key.text.isEmpty then return some id
    match t.known? id target with
    | some hit => return some hit
    | none =>
      if key.segments.isEmpty || t.path id = target then return some id
      else descend host policy target "" key.segments id
  else
    match ← climb key.text key.segments id with
    | .found hit => return some hit
    | .descend start segments => descend host policy key.text "" segments start

def findScope (host : Host φ) (policy : FailurePolicy) (scope : ScopeId) (overlays : List ScopeId)
    (key : Key) : Walk φ (Option ScopeId) := do
  let t ← ofRun Run.tree
  match if key.inContext then none else overlays.find? fun o => t.covers o key.text with
  | some overlay => search host policy overlay key
  | none => search host policy scope key

def findChain (host : Host φ) (policy : FailurePolicy) (scope : ScopeId) (overlays : List ScopeId) :
    List Link → Walk φ (List (ScopeId × φ))
  | [] => return []
  | link :: links => do
    match ← findScope host policy scope overlays link.key with
    | none => throw (.unresolvedFunction policy.raw)
    | some id =>
      let t ← ofRun Run.tree
      match t.function? id with
      | none => throw (.nonFunction policy.raw)
      | some f => return (id, f) :: (← findChain host policy scope overlays links)

def passThrough (env : Env φ) (policy : FailurePolicy) :
    List (φ × Link) → Value φ → Walk φ (Value φ)
  | [], v => return v
  | (f, link) :: links, v => do
    let t ← ofRun Run.tree
    let w ← evaluate env.host policy f v (t.data ScopeTree.root)
    let w := if link.format.isSome || link.escape then
        .string (formatValue env.numbers link.format link.escape w)
      else w
    passThrough env policy links w

def resolve (env : Env φ) (b : Binding) (scope : ScopeId) (overlays : List ScopeId) :
    Walk φ (Option (Resolution φ)) := do
  let policy := env.policy b.raw
  match ← findScope env.host policy scope overlays b.key with
  | none => return none
  | some found =>
    if b.links.isEmpty then
      let v ← value env.host policy found
      return some {
        scope := found
        chain := []
        value := v
        isRepeating := v.isArray
        isDynamic := v.isArray
        size := v.size }
    else
      let chain ← findChain env.host policy scope overlays b.links
      if b.awaitsText then
        return some {
          scope := found
          chain
          value := none
          isRepeating := false
          isDynamic := true
          size := 0 }
      else
        let v ← value env.host policy found
        let v := if b.format.isSome || b.escape then
            .string (formatValue env.numbers b.format b.escape v)
          else v
        let v ← passThrough env policy ((chain.map Prod.snd).zip b.links) v
        return some {
          scope := found
          chain
          value := v
          isRepeating := v.isArray
          isDynamic := true
          size := v.size }

def display (env : Env φ) (inclusive : Bool) (v : Value φ) (raw : String) : Walk φ Bool := do
  let holds ← match v.get? displayKey with
    | some (.function f) => do
      let t ← ofRun Run.tree
      evaluate env.host (env.policy raw) f v (t.data ScopeTree.root)
    | some flag => pure flag
    | none => pure v
  return holds.isTruthy env.settings.evalZeroAsTrue == inclusive

mutual

def stageNode (env : Env φ) (includeText : Inclusion → ScopeId → Walk φ String) (scope : ScopeId)
    (inScope : Bool) (waiting : List ScopeId) : Node → Walk φ (List Node)
  | .text text => return [.text text]
  | .inclusion i => do
    if i.key.inContext && !inScope then return [.inclusion i]
    return [.text (← includeText i scope)]
  | .tag tag => do
    let t ← ofRun Run.tree
    if mustWait t tag.binding inScope waiting then return [.tag tag]
    match ← resolve env tag.binding scope [] with
    | some r => return [.text ((r.value.map (tagText env tag)).getD "")]
    | none =>
      if tag.key.inContext && inScope then
        ofRun (Run.missing env tag.raw)
        return []
      else return [.tag tag]
  | .block head body => do
    let t ← ofRun Run.tree
    if mustWait t head.binding inScope waiting then return [.block head body]
    match ← resolve env head.binding scope [] with
    | none =>
      if head.key.inContext && inScope then
        ofRun (Run.missing env head.raw)
        if head.inclusive then return []
        else stageNodes env includeText scope inScope waiting body
      else return [.block head body]
    | some r =>
      let t ← ofRun Run.tree
      let anchored := head.anchored (t.path scope)
      if head.passesText then
        return [.block anchored
          (← stageNodes env includeText scope inScope (r.scope :: waiting) body)]
      else if r.isRepeating then
        if !head.inclusive then
          if r.size = 0 then stageNodes env includeText scope inScope waiting body
          else return []
        else if r.size = 0 then return []
        else
          let inner ← ofRun (Run.innerScope r)
          return [.block anchored
            (← stageNodes env includeText scope false (inner :: waiting) body)]
      else
        if ← display env head.inclusive (r.value.getD .null) head.raw then
          let inner ← ofRun (Run.innerScope r)
          stageNodes env includeText inner true waiting body
        else return []

def stageNodes (env : Env φ) (includeText : Inclusion → ScopeId → Walk φ String) (scope : ScopeId)
    (inScope : Bool) (waiting : List ScopeId) : List Node → Walk φ (List Node)
  | [] => return []
  | node :: nodes => do
    let staged ← stageNode env includeText scope inScope waiting node
    return staged ++ (← stageNodes env includeText scope inScope waiting nodes)

end

def settleNode (env : Env φ) (includeText : Inclusion → ScopeId → Walk φ String) (scope : ScopeId)
    (overlays : List ScopeId) (expanded : Option String) : Node → Walk φ String
  | .text text => return text
  | .block _ _ => return expanded.getD ""
  | .inclusion i => includeText i scope
  | .tag tag => do
    match ← resolve env tag.binding scope overlays with
    | some r => return (r.value.map (tagText env tag)).getD ""
    | none =>
      ofRun (Run.missing env tag.raw)
      return ""

def settleLevel (env : Env φ) (includeText : Inclusion → ScopeId → Walk φ String) (scope : ScopeId)
    (overlays : List ScopeId) : List (Node × Option String) → Walk φ String
  | [] => return ""
  | (node, expanded) :: rest => do
    let text ← settleNode env includeText scope overlays expanded node
    return text ++ (← settleLevel env includeText scope overlays rest)

def expandItems (env : Env φ) (raw : String) (body : ScopeId → List ScopeId → Walk φ String)
    (scope : ScopeId) (overlays : List ScopeId) : List Nat → Walk φ (List String)
  | [] => return []
  | index :: rest => do
    let item ← item env.host (env.policy raw) scope index
    let v ← value env.host (env.policy raw) item
    if ← display env true v raw then
      let text ← body item (item :: overlays)
      return text :: (← expandItems env raw body scope overlays rest)
    else expandItems env raw body scope overlays rest

def expandSection (env : Env φ) (head : Section) (body : ScopeId → List ScopeId → Walk φ String)
    (scope : ScopeId) (overlays : List ScopeId) : Walk φ String := do
  match ← resolve env head.binding scope overlays with
  | none =>
    ofRun (Run.missing env head.raw)
    if head.inclusive then return "" else body scope overlays
  | some r =>
    if head.passesText then
      let text ← body scope overlays
      let v ← passThrough env (env.policy head.raw) ((r.chain.map Prod.snd).zip head.links)
        (.string text)
      return formatValue env.numbers none false v
    else if r.isRepeating then
      if !head.inclusive then
        if r.size = 0 then body scope overlays else return ""
      else
        let inner ← ofRun (Run.innerScope r)
        let texts ← expandItems env head.raw body inner overlays (List.range r.size)
        return if head.list then Text.joinList texts else String.join texts
    else if ← display env head.inclusive (r.value.getD .null) head.raw then
      let inner ← ofRun (Run.innerScope r)
      body inner (if r.isDynamic then inner :: overlays else overlays)
    else return ""

mutual

def expandNode (env : Env φ) (includeText : Inclusion → ScopeId → Walk φ String) (scope : ScopeId)
    (overlays : List ScopeId) : Node → Walk φ (Option String)
  | .block head body => do
    let level (scope : ScopeId) (overlays : List ScopeId) : Walk φ String := do
      let pieces ← expandNodes env includeText scope overlays body
      settleLevel env includeText scope overlays (body.zip pieces)
    return some (← expandSection env head level scope overlays)
  | _ => return none

def expandNodes (env : Env φ) (includeText : Inclusion → ScopeId → Walk φ String) (scope : ScopeId)
    (overlays : List ScopeId) : List Node → Walk φ (List (Option String))
  | [] => return []
  | node :: nodes => do
    let piece ← expandNode env includeText scope overlays node
    return piece :: (← expandNodes env includeText scope overlays nodes)

end

def expandLevel (env : Env φ) (includeText : Inclusion → ScopeId → Walk φ String) (scope : ScopeId)
    (overlays : List ScopeId) (nodes : List Node) : Walk φ String := do
  let pieces ← expandNodes env includeText scope overlays nodes
  settleLevel env includeText scope overlays (nodes.zip pieces)

def renderNodes (env : Env φ) (includeText : Inclusion → ScopeId → Walk φ String) (top : ScopeId)
    (nodes : List Node) : Walk φ String := do
  let staged ← stageNodes env includeText top true [] nodes
  expandLevel env includeText top [] staged

/-- The text of an included template that is rendered from the scope `start.1` of a tree of its own. -/
def included (env : Env φ) (includeText : Inclusion → ScopeId → Walk φ String) (depth : Nat)
    (i : Inclusion) (template : Template) (start : ScopeId × ScopeTree φ) : Walk φ String := do
  match ← nested depth start.2 (renderNodes env includeText start.1 template.nodes) with
  | none => return ""
  | some text =>
    if i.format.isSome || i.escape then
      return formatValue env.numbers i.format i.escape (.string (φ := φ) text)
    else return text

/-- The text of a template that is included at the depth `depth`. -/
def includeText (env : Env φ) : (steps depth : Nat) → Inclusion → ScopeId → Walk φ String
  | 0, _, _, _ => fun _ _ => none
  | steps + 1, depth, i, scope =>
    match env.templates.lookup i.key.text with
    | none => ofRun (Run.notThere env i)
    | some template =>
      if maxPartialDepth ≤ depth then return ""
      else do
        let t ← ofRun Run.tree
        if i.key.inContext then
          let v ← value env.host (env.policy i.raw) scope
          let t' ← ofRun Run.tree
          included env (includeText env steps (depth + 1)) (depth + 1) i template
            (ScopeTree.newAt (t.data ScopeTree.root) (t'.path scope) v)
        else
          included env (includeText env steps (depth + 1)) (depth + 1) i template
            (ScopeTree.root, ScopeTree.new (t.data ScopeTree.root))

/-- The text of a template that nothing includes. -/
def render (env : Env φ) (template : Template) : Walk φ String := do
  let steps ← read
  renderNodes env (includeText env steps 0) ScopeTree.root template.nodes

end Course

/-- What a render comes to in so many steps, if it ends in them, and what was noted of it. -/
def Template.renderOn (host : Host φ) (template : Template) (data : Value φ) (options : RenderOptions)
    (steps : Nat) : Option (Outcome φ × List (Course.Event φ)) :=
  match options.compilePartials with
  | .error e => some (⟨.error e, []⟩, [])
  | .ok templates =>
    let env : Env φ := ⟨host, options.toSettings, options.numbers, templates⟩
    ((Course.render env template).ends steps ⟨.start data, []⟩).map fun r =>
      (⟨r.1, r.2.session.calls.reverse⟩, r.2.log)

end TextTemplate
