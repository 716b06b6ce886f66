import TextTemplate.Proofs.Place
import TextTemplate.Render

/-!
Rendering over places. Both passes are written once more without a scope tree: bindings are resolved
by searching the data, and nothing is kept between one binding and the next. `data` is the whole data,
which every called function gets to see.
-/
namespace TextTemplate
variable {φ : Type}

namespace Treeless

/-- A resolved binding, with its scope as a place. -/
structure Resolution (φ : Type) where
  place : Place φ
  functions : List φ
  value : Option (Value φ)
  isRepeating : Bool
  isDynamic : Bool
  size : Nat

def findPlace (host : Host φ) (policy : FailurePolicy) (place : Place φ) (overlays : List (Place φ))
    (key : Key) : Except TemplateError (Option (Place φ)) :=
  match if key.inContext then none else overlays.find? fun o => pathCovers o.path key.text with
  | some overlay => overlay.search host policy key
  | none => place.search host policy key

def findChain (host : Host φ) (policy : FailurePolicy) (place : Place φ) (overlays : List (Place φ)) :
    List Link → Except TemplateError (List φ)
  | [] => return []
  | link :: links => do
    match ← findPlace host policy place overlays link.key with
    | none => throw (.unresolvedFunction policy.raw)
    | some p =>
      match p.function? with
      | none => throw (.nonFunction policy.raw)
      | some f => return f :: (← findChain host policy place overlays links)

def passThrough (env : Env φ) (data : Value φ) (policy : FailurePolicy) :
    List (φ × Link) → Value φ → Except TemplateError (Value φ)
  | [], v => return v
  | (f, link) :: links, v => do
    let w ← env.host.outcome policy f v data
    let w := if link.format.isSome || link.escape then
        .string (formatValue env.numbers link.format link.escape w)
      else w
    passThrough env data policy links w

def resolve (env : Env φ) (data : Value φ) (b : Binding) (place : Place φ)
    (overlays : List (Place φ)) : Except TemplateError (Option (Resolution φ)) := do
  let policy := env.policy b.raw
  match ← findPlace env.host policy place overlays b.key with
  | none => return none
  | some found =>
    if b.links.isEmpty then
      let v ← found.read env.host policy
      return some {
        place := found
        functions := []
        value := v
        isRepeating := v.isArray
        isDynamic := v.isArray
        size := v.size }
    else
      let functions ← findChain env.host policy place overlays b.links
      if b.awaitsText then
        return some {
          place := found
          functions
          value := none
          isRepeating := false
          isDynamic := true
          size := 0 }
      else
        let v ← found.read env.host policy
        let v := if b.format.isSome || b.escape then
            .string (formatValue env.numbers b.format b.escape v)
          else v
        let v ← passThrough env data policy (functions.zip b.links) v
        return some {
          place := found
          functions
          value := v
          isRepeating := v.isArray
          isDynamic := true
          size := v.size }

/-- Where keys below a resolved binding are read. -/
def Resolution.inner (r : Resolution φ) : Place φ :=
  if (r.isRepeating && r.functions.isEmpty) || !r.isDynamic then r.place
  else r.place.overlay (r.value.getD .null)

def missing (env : Env φ) (raw : String) : Except TemplateError Unit :=
  if env.settings.errorOnMissingTags then throw (.missingBinding raw) else return

def display (env : Env φ) (data : Value φ) (inclusive : Bool) (v : Value φ) (raw : String) :
    Except TemplateError Bool := do
  let holds ← match v.get? displayKey with
    | some (.function f) => env.host.outcome (env.policy raw) f v data
    | some flag => pure flag
    | none => pure v
  return holds.isTruthy env.settings.evalZeroAsTrue == inclusive

def mustWait (b : Binding) (inScope : Bool) (waiting : List String) : Bool :=
  b.keys.any fun key =>
    if key.inContext then !inScope else waiting.any fun path => pathCovers path key.text

mutual

def stageNode (env : Env φ) (data : Value φ)
    (includeText : Inclusion → Place φ → Except TemplateError String) (place : Place φ)
    (inScope : Bool) (waiting : List String) : Node → Except TemplateError (List Node)
  | .text text => return [.text text]
  | .inclusion i => do
    if i.key.inContext && !inScope then return [.inclusion i]
    return [.text (← includeText i place)]
  | .tag tag => do
    if mustWait tag.binding inScope waiting then return [.tag tag]
    match ← resolve env data tag.binding place [] with
    | some r => return [.text ((r.value.map (tagText env tag)).getD "")]
    | none =>
      if tag.key.inContext && inScope then
        missing env tag.raw
        return []
      else return [.tag tag]
  | .block head body => do
    if mustWait head.binding inScope waiting then return [.block head body]
    match ← resolve env data head.binding place [] with
    | none =>
      if head.key.inContext && inScope then
        missing env head.raw
        if head.inclusive then return []
        else stageNodes env data includeText place inScope waiting body
      else return [.block head body]
    | some r =>
      let anchored := head.anchored place.path
      if head.passesText then
        return [.block anchored
          (← stageNodes env data includeText place inScope (r.place.path :: waiting) body)]
      else if r.isRepeating then
        if !head.inclusive then
          if r.size = 0 then stageNodes env data includeText place inScope waiting body
          else return []
        else if r.size = 0 then return []
        else
          return [.block anchored
            (← stageNodes env data includeText place false (r.inner.path :: waiting) body)]
      else
        if ← display env data head.inclusive (r.value.getD .null) head.raw then
          stageNodes env data includeText r.inner true waiting body
        else return []

def stageNodes (env : Env φ) (data : Value φ)
    (includeText : Inclusion → Place φ → Except TemplateError String) (place : Place φ)
    (inScope : Bool) (waiting : List String) : List Node → Except TemplateError (List Node)
  | [] => return []
  | node :: nodes => do
    let staged ← stageNode env data includeText place inScope waiting node
    return staged ++ (← stageNodes env data includeText place inScope waiting nodes)

end

def settleNode (env : Env φ) (data : Value φ)
    (includeText : Inclusion → Place φ → Except TemplateError String) (place : Place φ)
    (overlays : List (Place φ)) (expanded : Option String) : Node → Except TemplateError String
  | .text text => return text
  | .block _ _ => return expanded.getD ""
  | .inclusion i => includeText i place
  | .tag tag => do
    match ← resolve env data tag.binding place overlays with
    | some r => return (r.value.map (tagText env tag)).getD ""
    | none =>
      missing env tag.raw
      return ""

def settleLevel (env : Env φ) (data : Value φ)
    (includeText : Inclusion → Place φ → Except TemplateError String) (place : Place φ)
    (overlays : List (Place φ)) : List (Node × Option String) → Except TemplateError String
  | [] => return ""
  | (node, expanded) :: rest => do
    let text ← settleNode env data includeText place overlays expanded node
    return text ++ (← settleLevel env data includeText place overlays rest)

def expandItems (env : Env φ) (data : Value φ) (raw : String)
    (body : Place φ → List (Place φ) → Except TemplateError String) (place : Place φ)
    (overlays : List (Place φ)) : List Nat → Except TemplateError (List String)
  | [] => return []
  | index :: rest => do
    let v ← place.read env.host (env.policy raw)
    let item := place.item v index
    let w ← item.read env.host (env.policy raw)
    if ← display env data true w raw then
      let text ← body item (item :: overlays)
      return text :: (← expandItems env data raw body place overlays rest)
    else expandItems env data raw body place overlays rest

def expandSection (env : Env φ) (data : Value φ) (head : Section)
    (body : Place φ → List (Place φ) → Except TemplateError String) (place : Place φ)
    (overlays : List (Place φ)) : Except TemplateError String := do
  match ← resolve env data head.binding place overlays with
  | none =>
    missing env head.raw
    if head.inclusive then return "" else body place overlays
  | some r =>
    if head.passesText then
      let text ← body place overlays
      let v ← passThrough env data (env.policy head.raw) (r.functions.zip head.links) (.string text)
      return formatValue env.numbers none false v
    else if r.isRepeating then
      if !head.inclusive then
        if r.size = 0 then body place overlays else return ""
      else
        let texts ← expandItems env data head.raw body r.inner overlays (List.range r.size)
        return if head.list then Text.joinList texts else String.join texts
    else if ← display env data head.inclusive (r.value.getD .null) head.raw then
      body r.inner (if r.isDynamic then r.inner :: overlays else overlays)
    else return ""

mutual

def expandNode (env : Env φ) (data : Value φ)
    (includeText : Inclusion → Place φ → Except TemplateError String) (place : Place φ)
    (overlays : List (Place φ)) : Node → Except TemplateError (Option String)
  | .block head body => do
    let level (place : Place φ) (overlays : List (Place φ)) : Except TemplateError String := do
      let pieces ← expandNodes env data includeText place overlays body
      settleLevel env data includeText place overlays (body.zip pieces)
    return some (← expandSection env data head level place overlays)
  | _ => return none

def expandNodes (env : Env φ) (data : Value φ)
    (includeText : Inclusion → Place φ → Except TemplateError String) (place : Place φ)
    (overlays : List (Place φ)) : List Node → Except TemplateError (List (Option String))
  | [] => return []
  | node :: nodes => do
    let piece ← expandNode env data includeText place overlays node
    return piece :: (← expandNodes env data includeText place overlays nodes)

end

def expandLevel (env : Env φ) (data : Value φ)
    (includeText : Inclusion → Place φ → Except TemplateError String) (place : Place φ)
    (overlays : List (Place φ)) (nodes : List Node) : Except TemplateError String := do
  let pieces ← expandNodes env data includeText place overlays nodes
  settleLevel env data includeText place overlays (nodes.zip pieces)

def renderNodes (env : Env φ) (data : Value φ)
    (includeText : Inclusion → Place φ → Except TemplateError String) (top : Place φ)
    (nodes : List Node) : Except TemplateError String := do
  let staged ← stageNodes env data includeText top true [] nodes
  expandLevel env data includeText top [] staged

/-- The place an included template starts from, and the whole data it sees. -/
def startOf (data : Value φ) (path : String) (v : Value φ) : Place φ × Value φ :=
  if path.isEmpty then (.top v, v) else (⟨⟨path, v⟩, [⟨"", data⟩]⟩, data)

def includeText (env : Env φ) (data : Value φ) :
    (levels : Nat) → Inclusion → Place φ → Except TemplateError String
  | levels, i, place => do
    match env.templates.lookup i.key.text with
    | none =>
      if env.settings.errorOnMissingTags then throw (.missingPartial i.key.text i.raw)
      return ""
    | some template =>
      match levels with
      | 0 => return ""
      | levels + 1 =>
        let (top, inner) ←
          if i.key.inContext then
            let v ← place.read env.host (env.policy i.raw)
            pure (startOf data place.path v)
          else pure (.top data, data)
        match renderNodes env inner (includeText env inner levels) top template.nodes with
        | .error _ => return ""
        | .ok text =>
          if i.format.isSome || i.escape then
            return formatValue env.numbers i.format i.escape (.string (φ := φ) text)
          else return text

def render (env : Env φ) (template : Template) (data : Value φ) : Except TemplateError String :=
  renderNodes env data (includeText env data maxPartialDepth) (.top data) template.nodes

end Treeless

end TextTemplate
