import TextTemplate.Render

/-!
The text of an included template, case by case: the template may not be there, may be included too
deep, or is rendered in a tree of its own.
-/
namespace TextTemplate
variable {φ : Type}

namespace Run

/-- What comes of including a template that is not there. -/
def notThere (env : Env φ) (i : Inclusion) : Run φ String := do
  if env.settings.errorOnMissingTags then throw (.missingPartial i.key.text i.raw)
  return ""

/-- The text of an included template that is rendered from the scope `start.1` of a tree of its own,
with `levels` levels of inclusion left in it. -/
def included (env : Env φ) (levels : Nat) (i : Inclusion) (template : Template)
    (start : ScopeId × ScopeTree φ) : Run φ String := do
  match ← nested start.2 (renderNodes env (includeText env levels) start.1 template.nodes) with
  | none => return ""
  | some text =>
    if i.format.isSome || i.escape then
      return formatValue env.numbers i.format i.escape (.string (φ := φ) text)
    else return text

variable {env : Env φ} {i : Inclusion} {template : Template}

theorem includeText_none (h : env.templates.lookup i.key.text = none) (levels : Nat)
    (scope : ScopeId) : includeText env levels i scope = notThere env i := by
  cases levels <;> rw [includeText, h] <;> rfl

theorem includeText_zero (h : env.templates.lookup i.key.text = some template) (scope : ScopeId) :
    includeText env 0 i scope = return "" := by
  rw [includeText, h]

theorem includeText_succ (h : env.templates.lookup i.key.text = some template) (levels : Nat)
    (scope : ScopeId) : includeText env (levels + 1) i scope = (do
      let t ← tree
      if i.key.inContext then
        let v ← value env.host (env.policy i.raw) scope
        let t' ← tree
        included env levels i template (ScopeTree.newAt (t.data ScopeTree.root) (t'.path scope) v)
      else included env levels i template (ScopeTree.root, ScopeTree.new (t.data ScopeTree.root))) := by
  rw [includeText, h]
  refine congrArg (tree >>= ·) (funext fun t => ?_)
  dsimp only
  split <;> rfl

end Run

end TextTemplate
