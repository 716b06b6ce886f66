import TextTemplate.Proofs.Inclusions

/-!
Templates with marked sections, and a guarded render of them. It goes the way of a render without
ever looking into a marked section, and stops at the first one that is not hidden by its own key
when it is reached.
-/
namespace TextTemplate
variable {φ α : Type}

/-- A part of a template in which sections may be marked. -/
inductive MarkedNode where
  | text (text : String)
  | tag (tag : Tag)
  | inclusion (inclusion : Inclusion)
  | block (head : Section) (body : List MarkedNode)
  /-- A marked section with the body it has. -/
  | marked (head : Section) (body : List Node)

namespace MarkedNode

mutual

/-- The node without the marks, where `f` gives the marked sections their bodies. -/
def fill (f : List Node → List Node) : MarkedNode → Node
  | text t => .text t
  | tag t => .tag t
  | inclusion i => .inclusion i
  | block head body => .block head (fillAll f body)
  | marked head body => .block head (f body)

def fillAll (f : List Node → List Node) : List MarkedNode → List Node
  | [] => []
  | node :: nodes => fill f node :: fillAll f nodes

end

theorem fillAll_append (f : List Node → List Node) (a b : List MarkedNode) :
    fillAll f (a ++ b) = fillAll f a ++ fillAll f b := by
  induction a with
  | nil => rfl
  | cons node a ih => rw [List.cons_append, fillAll, fillAll, ih, List.cons_append]

end MarkedNode

structure MarkedTemplate where
  nodes : List MarkedNode
  delimiters : Delimiters

namespace MarkedTemplate

/-- The template without the marks, where `f` gives the marked sections their bodies. -/
def fill (f : List Node → List Node) (t : MarkedTemplate) : Template :=
  ⟨MarkedNode.fillAll f t.nodes, t.delimiters⟩

def fillAll (f : List Node → List Node) (templates : List (String × MarkedTemplate)) :
    List (String × Template) :=
  templates.map fun (name, t) => (name, t.fill f)

theorem lookup_fillAll (f : List Node → List Node) (templates : List (String × MarkedTemplate))
    (name : String) :
    (fillAll f templates).lookup name = (templates.lookup name).map (fill f) := by
  induction templates with
  | nil => rfl
  | cons entry templates ih =>
    obtain ⟨n, t⟩ := entry
    rw [fillAll, List.map_cons, List.lookup_cons, List.lookup_cons]
    split
    · rfl
    · exact ih

end MarkedTemplate

/-- The same host, settings and number formatter with other templates to include. -/
def Env.including (env : Env φ) (templates : List (String × Template)) : Env φ :=
  { env with templates }

/-- Whether a section is hidden by its own key, from what the key resolves to: an inclusive section
without a key to be found, over an empty array or over any other value that does not hold; an
exclusive one over an array with items or over any other value that holds. A section that passes its
text on is hidden only when its key is not found. -/
def Section.isHidden (env : Env φ) (head : Section) : Option (Resolution φ) → Run φ Bool
  | none => return head.inclusive
  | some r => do
    if head.passesText then return false
    if r.isRepeating then return if head.inclusive then r.size == 0 else r.size != 0
    return !(← Run.display env head.inclusive (r.value.getD .null) head.raw)

namespace Guarded

/-- How a guarded render stops. -/
def shown : TemplateError := .config "a marked section is shown" none

/-- Goes on only if the section is hidden by its own key. -/
def check (env : Env φ) (head : Section) (r : Option (Resolution φ)) : Run φ Unit := do
  if r.isNone then Run.missing env head.raw
  if ← head.isHidden env r then return else throw shown

theorem check_none (env : Env φ) (head : Section) (k : Unit → Run φ α) :
    (check env head none >>= k) = (do
      Run.missing env head.raw
      if head.inclusive then k () else throw shown) := by
  simp only [check, Section.isHidden, Option.isNone_none, if_true, pure_bind, bind_assoc]
  refine congrArg (Run.missing env head.raw >>= ·) (funext fun _ => ?_)
  split <;> rfl

theorem check_some (env : Env φ) (head : Section) (r : Resolution φ) (k : Unit → Run φ α) :
    (check env head (some r) >>= k) = (do
      if head.passesText then throw shown
      else if r.isRepeating then
        if (if head.inclusive then r.size == 0 else r.size != 0) then k () else throw shown
      else if ← Run.display env head.inclusive (r.value.getD .null) head.raw then throw shown
      else k ()) := by
  simp only [check, Section.isHidden, Option.isNone_some, Bool.false_eq_true, if_false]
  split
  · rfl
  · split
    · generalize (if head.inclusive then r.size == 0 else r.size != 0) = hidden
      cases hidden <;> rfl
    · simp only [pure_bind, bind_assoc]
      refine congrArg (Run.display _ _ _ _ >>= ·) (funext fun b => ?_)
      cases b <;> rfl

/-- The first pass over a section whose body is staged by `body`. `keep` is the section as it is,
and `copy` is one with another head and a staged body. -/
def stageSection (env : Env φ) (head : Section) (scope : ScopeId) (inScope : Bool)
    (waiting : List ScopeId) (keep : α) (copy : Section → List α → α)
    (body : ScopeId → Bool → List ScopeId → Run φ (List α)) : Run φ (List α) := do
  if mustWait (← Run.tree) head.binding inScope waiting then return [keep]
  match ← Run.resolve env head.binding scope [] with
  | none =>
    if head.key.inContext && inScope then
      Run.missing env head.raw
      if head.inclusive then return []
      else body scope inScope waiting
    else return [keep]
  | some r =>
    let anchored := head.anchored ((← Run.tree).path scope)
    if head.passesText then
      return [copy anchored (← body scope inScope (r.scope :: waiting))]
    else if r.isRepeating then
      if !head.inclusive then
        if r.size = 0 then body scope inScope waiting
        else return []
      else if r.size = 0 then return []
      else
        let inner ← Run.innerScope r
        return [copy anchored (← body scope false (inner :: waiting))]
    else
      if ← Run.display env head.inclusive (r.value.getD .null) head.raw then
        let inner ← Run.innerScope r
        body inner true waiting
      else return []

/-- The first pass over a marked section: unless it has to wait, it is hidden. -/
def stageMarked (env : Env φ) (head : Section) (scope : ScopeId) (inScope : Bool)
    (waiting : List ScopeId) (keep : α) : Run φ (List α) := do
  if mustWait (← Run.tree) head.binding inScope waiting then return [keep]
  let r ← Run.resolve env head.binding scope []
  if r.isNone && !(head.key.inContext && inScope) then return [keep]
  check env head r
  return []

/-- The second pass over a marked section. An empty sequence gets its scope before its items are
looked for. -/
def expandMarked (env : Env φ) (head : Section) (scope : ScopeId) (overlays : List ScopeId) :
    Run φ String := do
  let r ← Run.resolve env head.binding scope overlays
  check env head r
  match r with
  | some r =>
    if r.isRepeating && head.inclusive then
      let _ ← Run.innerScope r
      return ""
    else return ""
  | none => return ""

section

variable (env : Env φ) (includeText : Inclusion → ScopeId → Run φ String)

mutual

def stageNode (scope : ScopeId) (inScope : Bool) (waiting : List ScopeId) :
    MarkedNode → Run φ (List MarkedNode)
  | .text text => return [.text text]
  | .inclusion i => do
    if i.key.inContext && !inScope then return [.inclusion i]
    return [.text (← includeText i scope)]
  | .tag tag => do
    if mustWait (← Run.tree) tag.binding inScope waiting then return [.tag tag]
    match ← Run.resolve env tag.binding scope [] with
    | some r => return [.text ((r.value.map (tagText env tag)).getD "")]
    | none =>
      if tag.key.inContext && inScope then
        Run.missing env tag.raw
        return []
      else return [.tag tag]
  | .block head body =>
    stageSection env head scope inScope waiting (.block head body) .block
      fun scope inScope waiting => stageNodes scope inScope waiting body
  | .marked head body => stageMarked env head scope inScope waiting (.marked head body)

def stageNodes (scope : ScopeId) (inScope : Bool) (waiting : List ScopeId) :
    List MarkedNode → Run φ (List MarkedNode)
  | [] => return []
  | node :: nodes => do
    let staged ← stageNode scope inScope waiting node
    return staged ++ (← stageNodes scope inScope waiting nodes)

end

/-- What stands in sections that are expanded is not looked at any more. -/
def settleLevel (scope : ScopeId) (overlays : List ScopeId) (nodes : List MarkedNode)
    (pieces : List (Option String)) : Run φ String :=
  TextTemplate.settleLevel env includeText scope overlays ((MarkedNode.fillAll id nodes).zip pieces)

mutual

def expandNode (scope : ScopeId) (overlays : List ScopeId) : MarkedNode → Run φ (Option String)
  | .block head body => do
    let level (scope : ScopeId) (overlays : List ScopeId) : Run φ String := do
      let pieces ← expandNodes scope overlays body
      settleLevel env includeText scope overlays body pieces
    return some (← expandSection env head level scope overlays)
  | .marked head _ => return some (← expandMarked env head scope overlays)
  | _ => return none

def expandNodes (scope : ScopeId) (overlays : List ScopeId) :
    List MarkedNode → Run φ (List (Option String))
  | [] => return []
  | node :: nodes => do
    let piece ← expandNode scope overlays node
    return piece :: (← expandNodes scope overlays nodes)

end

def renderNodes (top : ScopeId) (nodes : List MarkedNode) : Run φ String := do
  let staged ← stageNodes env includeText top true [] nodes
  let pieces ← expandNodes env includeText top [] staged
  settleLevel env includeText top [] staged pieces

end

/-- A run on a tree of its own; it stops the run around it when it stops. -/
def nested (tree : ScopeTree φ) (body : Run φ String) : Run φ (Option String) := fun s =>
  match body ⟨tree, s.calls⟩ with
  | .ok text inner => .ok text { s with calls := inner.calls }
  | .error e inner =>
    if e = shown then .error e { s with calls := inner.calls }
    else .ok none { s with calls := inner.calls }

/-- The text of an included template that `level` renders from the scope `start.1` of a tree of its
own. -/
def included (env : Env φ) (i : Inclusion) (level : ScopeId → Run φ String)
    (start : ScopeId × ScopeTree φ) : Run φ String := do
  match ← nested start.2 (level start.1) with
  | none => return ""
  | some text =>
    if i.format.isSome || i.escape then
      return formatValue env.numbers i.format i.escape (.string (φ := φ) text)
    else return text

/-- The text of an included template, with `levels` levels of inclusion left. -/
def includeText (env : Env φ) (templates : List (String × MarkedTemplate)) :
    (levels : Nat) → Inclusion → ScopeId → Run φ String
  | levels, i, scope => do
    match templates.lookup i.key.text with
    | none => Run.notThere env i
    | some template =>
      match levels with
      | 0 => return ""
      | levels + 1 =>
        let level top := renderNodes env (includeText env templates levels) top template.nodes
        let t ← Run.tree
        if i.key.inContext then
          let v ← Run.value env.host (env.policy i.raw) scope
          let t' ← Run.tree
          included env i level (ScopeTree.newAt (t.data ScopeTree.root) (t'.path scope) v)
        else included env i level (ScopeTree.root, ScopeTree.new (t.data ScopeTree.root))

/-- Renders a template until a marked section is reached that is not hidden. -/
def render (env : Env φ) (templates : List (String × MarkedTemplate)) (template : MarkedTemplate) :
    Run φ String :=
  renderNodes env (includeText env templates maxPartialDepth) ScopeTree.root template.nodes

end Guarded

end TextTemplate
