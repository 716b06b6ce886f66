import TextTemplate.Call
import TextTemplate.Node.Assembly
import TextTemplate.Number.Spec
import TextTemplate.Settings

/-!
Parsed templates, and what a render needs beside one: settings, a number formatter and the templates
that may be included. Those given as source are parsed with the delimiters of the render.
-/
namespace TextTemplate
variable {φ : Type}

structure Template where
  nodes : List Node
  delimiters : Delimiters

namespace Template

/-- Parses a source with delimiters that are usable. -/
def compile (source : String) (delimiters : Delimiters) : Except TemplateError Template := do
  delimiters.validate
  let nodes ← Node.parse source delimiters
  return { nodes, delimiters }

end Template

/-- A template to include, as source or already parsed. -/
inductive Partial where
  | source (source : String)
  | compiled (template : Template)

def Partial.compile (delimiters : Delimiters) (name : String) :
    Partial → Except TemplateError Template
  | .compiled template => .ok template
  | .source text =>
    (Template.compile text delimiters).mapError fun e => .invalidPartial name e.message

structure RenderOptions extends Settings where
  partials : List (String × Partial)
  numbers : Number.Formatter

namespace RenderOptions

def default : RenderOptions :=
  { Settings.default with partials := [], numbers := Number.specFormatter }

/-- Parses all templates to include; the first that does not parse fails. -/
def compilePartials (options : RenderOptions) : Except TemplateError (List (String × Template)) :=
  options.partials.mapM fun (name, p) =>
    (p.compile options.delimiters name).map fun template => (name, template)

end RenderOptions

/-- Everything a render looks at and never changes. -/
structure Env (φ : Type) where
  host : Host φ
  settings : Settings
  numbers : Number.Formatter
  templates : List (String × Template)

namespace Env

/-- What a failing function does while the tag `raw` is worked on. -/
def policy (env : Env φ) (raw : String) : FailurePolicy :=
  ⟨raw, env.settings.errorOnFuncFailure⟩

end Env

end TextTemplate
