import TextTemplate.Render.Expansion
import TextTemplate.Render.Staging

/-!
Rendering: both passes over a template, and the templates it includes. An included template is
rendered over the whole data or, when its tag says so, from the enclosing scope, in a scope tree of
its own; nothing that goes wrong inside it ends the render around it.
-/
namespace TextTemplate
variable {φ : Type}

/-- How deep included templates may nest. -/
def maxPartialDepth : Nat := 32

/-- A session over data nobody has looked at yet. -/
def Session.start (data : Value φ) : Session φ := ⟨ScopeTree.new data, []⟩

namespace Run

/-- Renders nodes from a scope: the first pass, then the second. -/
def renderNodes (env : Env φ) (includeText : Inclusion → ScopeId → Run φ String)
    (top : ScopeId) (nodes : List Node) : Run φ String := do
  let staged ← stageNodes env includeText top true [] nodes
  expandLevel env includeText top [] staged

/-- Runs `body` on a tree of its own, and then goes on with the tree there was; an error inside is
no text. -/
def nested (tree : ScopeTree φ) (body : Run φ String) : Run φ (Option String) := fun s =>
  match body ⟨tree, s.calls⟩ with
  | .ok text inner => .ok text { s with calls := inner.calls }
  | .error _ inner => .ok none { s with calls := inner.calls }

/-- The text of an included template, with `levels` levels of inclusion left. -/
def includeText (env : Env φ) : (levels : Nat) → Inclusion → ScopeId → Run φ String
  | levels, i, scope => do
    match env.templates.lookup i.key.text with
    | none =>
      if env.settings.errorOnMissingTags then throw (.missingPartial i.key.text i.raw)
      return ""
    | some template =>
      match levels with
      | 0 => return ""
      | levels + 1 =>
        let root := (← tree).data ScopeTree.root
        let (top, inner) ←
          if i.key.inContext then
            let v ← value env.host (env.policy i.raw) scope
            pure (ScopeTree.newAt root ((← tree).path scope) v)
          else pure (ScopeTree.root, ScopeTree.new root)
        match ← nested inner (renderNodes env (includeText env levels) top template.nodes) with
        | none => return ""
        | some text =>
          if i.format.isSome || i.escape then
            return formatValue env.numbers i.format i.escape (.string (φ := φ) text)
          else return text

/-- Renders a template in a session over its data. -/
def render (env : Env φ) (template : Template) : Run φ String :=
  renderNodes env (includeText env maxPartialDepth) ScopeTree.root template.nodes

end Run

/-- A text or an error, and the calls made on the way, first call first. -/
structure Outcome (φ : Type) where
  result : Except TemplateError String
  calls : List (Call φ)

namespace Template

/-- Renders a template over data, with the options of this render. -/
def render (host : Host φ) (template : Template) (data : Value φ) (options : RenderOptions) :
    Outcome φ :=
  match options.compilePartials with
  | .error e => ⟨.error e, []⟩
  | .ok templates =>
    let env : Env φ := ⟨host, options.toSettings, options.numbers, templates⟩
    match Run.render env template (.start data) with
    | .ok text s => ⟨.ok text, s.calls.reverse⟩
    | .error e s => ⟨.error e, s.calls.reverse⟩

end Template

/-- Parses a source and renders it, in one go. -/
def render (host : Host φ) (source : String) (data : Value φ) (options : RenderOptions) :
    Outcome φ :=
  match Template.compile source options.delimiters with
  | .error e => ⟨.error e, []⟩
  | .ok template => template.render host data options

end TextTemplate
