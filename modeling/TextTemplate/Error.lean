/-!
What can go wrong with a template: its causes, their wording, and the tag each one points at.
-/
namespace TextTemplate

inductive ErrorCategory where
  | parse
  | binding
  | function
  | inclusion
  | settings
  deriving DecidableEq, Repr

/-- Every error keeps the tag that caused it, delimiters included, when there is one. -/
inductive TemplateError where
  /-- A tag outside the tag grammar. -/
  | invalidTag (message raw : String)
  /-- A section that is not closed, or a close that fits no section. -/
  | invalidSection (message raw : String)
  /-- A key that no scope holds, once everything is known. -/
  | missingBinding (raw : String)
  /-- An included template that was not supplied. -/
  | missingPartial (name raw : String)
  /-- A link that leads to no function. -/
  | functionChain (message raw : String)
  /-- A bound function that failed. -/
  | functionFailed (message raw : String)
  /-- An included template that does not parse. -/
  | invalidPartial (name message : String)
  /-- Settings that cannot be read or used. -/
  | config (message : String) (context : Option String)
  deriving DecidableEq, Repr

namespace TemplateError

def unresolvedFunction (raw : String) : TemplateError :=
  functionChain "unresolved function" raw

def nonFunction (raw : String) : TemplateError :=
  functionChain "non-function" raw

/-- A stable identifier of the kind of error. -/
def code : TemplateError → String
  | invalidTag .. => "TEMPLATE_INVALID_TAG"
  | invalidSection .. => "TEMPLATE_INVALID_SECTION"
  | missingBinding .. => "TEMPLATE_MISSING_BINDING"
  | missingPartial .. => "TEMPLATE_MISSING_PARTIAL"
  | functionChain .. => "TEMPLATE_FUNCTION_CHAIN"
  | functionFailed .. => "TEMPLATE_FUNCTION_FAILED"
  | invalidPartial .. => "TEMPLATE_INVALID_PARTIAL"
  | config .. => "TEMPLATE_CONFIG"

/-- What went wrong, without the place. -/
def detail : TemplateError → String
  | invalidTag message _ => message
  | invalidSection message _ => message
  | missingBinding _ => "missing binding"
  | missingPartial _ _ => "missing partial"
  | functionChain message _ => message
  | functionFailed message _ => message
  | invalidPartial _ message => message
  | config message _ => message

/-- What the error is about, beyond the tag: a partial's name, or where settings were read. -/
def context? : TemplateError → Option String
  | config _ context => context
  | missingPartial name _ => some name
  | invalidPartial name _ => some name
  | _ => none

def raw? : TemplateError → Option String
  | invalidTag _ raw => some raw
  | invalidSection _ raw => some raw
  | missingBinding raw => some raw
  | missingPartial _ raw => some raw
  | functionChain _ raw => some raw
  | functionFailed _ raw => some raw
  | invalidPartial .. => none
  | config .. => none

def category : TemplateError → ErrorCategory
  | invalidTag .. => .parse
  | invalidSection .. => .parse
  | missingBinding .. => .binding
  | functionChain .. => .function
  | functionFailed .. => .function
  | missingPartial .. => .inclusion
  | invalidPartial .. => .inclusion
  | config .. => .settings

/-- The whole sentence shown to a reader. -/
def message : TemplateError → String
  | invalidTag m raw => "Invalid tag: " ++ m ++ " at " ++ raw
  | invalidSection m raw => "Invalid template: " ++ m ++ " at " ++ raw
  | missingBinding raw => "Render error: missing binding for " ++ raw
  | missingPartial name raw => "Render error: missing partial '" ++ name ++ "' at " ++ raw
  | functionChain m raw => "Context passed to " ++ m ++ " at " ++ raw
  | functionFailed m raw => "Error evaluating bindings at " ++ raw ++ ": " ++ m
  | invalidPartial name m => "Invalid partial '" ++ name ++ "': " ++ m
  | config m _ => "Configuration error: " ++ m

end TemplateError

/-- Two computations one after the other give a result when each of them does. -/
theorem bind_eq_ok_iff {ε α β : Type} {x : Except ε α} {f : α → Except ε β} {b : β} :
    (x >>= f) = .ok b ↔ ∃ a, x = .ok a ∧ f a = .ok b := by
  cases x with
  | error e => exact ⟨nofun, nofun⟩
  | ok a =>
    constructor
    · exact fun h => ⟨a, rfl, h⟩
    · rintro ⟨_, ⟨⟩, h⟩
      exact h

end TextTemplate
